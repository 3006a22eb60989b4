import FilterEncoding.FeatureIdRequest
import FilterEncoding.Proofs.Chars.Cut
import FilterEncoding.Proofs.Readers
import Mathlib.Data.List.Induction
import Mathlib.Data.List.Sort

/-!
# Ids grouped by layer

A request for features is cut at its commas into tokens, and each token belongs to a layer of the
request or is refused.  What is found is put into one group for each layer.

* `FeatureIdGroup.Belongs` — the layer and the id of a token.
* `FeatureIdGroup.IsGrouped` — the groups of the layers and ids that were found.
* `FeatureIdGroup.Answers` — what a list of tokens is answered with.
* `FeatureIdGroup.resolve_eq_iff` — a request is answered so, and in no other way.
-/

namespace FilterEncoding.FeatureIdGroup

variable {layers : List String} {token : String}

/-! ## Tokens and their layers -/

/-- The layer that a token belongs to, and the id that the token asks of it. -/
inductive Belongs (layers : List String) : String → String → String → Prop
  /-- A layer is named in front of the last dot, up to the case of ASCII letters.  The first such
  layer counts. -/
  | named {before after : List String} {layer typeName id : String}
      (hlayers : layers = before ++ layer :: after)
      (hbefore : ∀ other ∈ before, ¬Text.same other typeName = true)
      (hsame : Text.same layer typeName = true) (hid : '.' ∉ id.toList) :
      Belongs layers (typeName ++ "." ++ id) layer id
  /-- Among no layers, what stands in front of the last dot is a layer itself. -/
  | anyType {typeName id : String} (hlayers : layers = []) (hid : '.' ∉ id.toList) :
      Belongs layers (typeName ++ "." ++ id) typeName id
  /-- Without a dot, a token belongs to the only layer. -/
  | bare {layer token : String} (hlayers : layers = [layer]) (htoken : '.' ∉ token.toList) :
      Belongs layers token layer token

def IsResolvable (layers : List String) (token : String) : Prop :=
  ∃ layer id, Belongs layers token layer id

/-- The error that names a token. -/
def refusal (token : String) : FeatureIdError :=
  if '.' ∈ token.toList then .unknownType token else .noType token

theorem resolveToken_of_belongs {layer id : String} (h : Belongs layers token layer id) :
    resolveToken layers token = .ok (layer, id) := by
  have hcut {typeName id : String} (hid : '.' ∉ id.toList) :
      Text.cutLast '.' (typeName ++ "." ++ id) = some (typeName, id) :=
    Text.cutLast_eq_some_iff.2 ⟨by simp, hid⟩
  unfold resolveToken
  cases h with
  | @named before after _ typeName _ hlayers hbefore hsame hid =>
      have hfind : layers.find? (fun other => Text.same other typeName) = some layer :=
        List.find?_eq_some_iff_append.2 ⟨hsame, before, after, hlayers, fun other hother =>
          Bool.not_eq_true' _ ▸ Bool.eq_false_iff.2 (hbefore other hother)⟩
      rw [hcut hid]
      dsimp only
      rw [hfind]
  | anyType hlayers hid =>
      rw [hcut hid, hlayers]
      rfl
  | bare hlayers htoken =>
      rw [Text.cutLast_eq_none_iff.2 htoken, hlayers]

/-- A token is resolved to its layer and id, or refused because it has none. -/
theorem resolveToken_cases (layers : List String) (token : String) :
    (∃ layer id, Belongs layers token layer id ∧ resolveToken layers token = .ok (layer, id)) ∨
      ¬IsResolvable layers token ∧ resolveToken layers token = .error (refusal token) := by
  suffices h : IsResolvable layers token ∨
      resolveToken layers token = .error (refusal token) by
    rcases h with ⟨layer, id, hbelongs⟩ | herror
    · exact .inl ⟨layer, id, hbelongs, resolveToken_of_belongs hbelongs⟩
    · refine .inr ⟨fun ⟨layer, id, hbelongs⟩ => ?_, herror⟩
      rw [resolveToken_of_belongs hbelongs] at herror
      cases herror
  unfold resolveToken
  rcases hcut : Text.cutLast '.' token with _ | ⟨typeName, id⟩
  · have htoken : '.' ∉ token.toList := Text.cutLast_eq_none_iff.1 hcut
    dsimp only
    split
    · next only => exact .inl ⟨only, token, .bare rfl htoken⟩
    · exact .inr (by rw [refusal, if_neg htoken])
  · obtain ⟨htext, hid⟩ := Text.cutLast_eq_some_iff.1 hcut
    have hdot : '.' ∈ token.toList := by simp [htext]
    have htoken : token = typeName ++ "." ++ id := by
      rw [← String.toList_inj]
      simpa using htext
    dsimp only
    split
    · next layer hfind =>
      obtain ⟨hsame, before, after, hlayers, hbefore⟩ := List.find?_eq_some_iff_append.1 hfind
      refine .inl ⟨layer, id, htoken ▸ .named hlayers (fun other hother => ?_) hsame hid⟩
      simpa using hbefore other hother
    · split
      · next hempty =>
        exact .inl ⟨typeName, id, htoken ▸ .anyType (List.isEmpty_iff.1 hempty) hid⟩
      · exact .inr (by rw [refusal, if_pos hdot])

theorem resolveToken_eq_ok_iff {layer id : String} :
    resolveToken layers token = .ok (layer, id) ↔ Belongs layers token layer id := by
  refine ⟨fun h => ?_, resolveToken_of_belongs⟩
  rcases resolveToken_cases layers token with ⟨layer', id', hbelongs, hok⟩ | ⟨-, herror⟩
  · cases h.symm.trans hok
    exact hbelongs
  · cases h.symm.trans herror

theorem resolveToken_eq_error_iff {e : FeatureIdError} :
    resolveToken layers token = .error e ↔ ¬IsResolvable layers token ∧ e = refusal token := by
  rcases resolveToken_cases layers token with ⟨layer, id, hbelongs, hok⟩ | ⟨hnot, herror⟩
  · rw [hok]
    exact ⟨nofun, fun h => absurd ⟨layer, id, hbelongs⟩ h.1⟩
  · rw [herror]
    exact ⟨fun h => ⟨hnot, by cases h; rfl⟩, fun h => by rw [h.2]⟩

/-! ## Groups -/

/-- The groups of layers and ids. -/
structure IsGrouped (found : List (String × String)) (groups : List FeatureIdGroup) : Prop where
  /-- The layers of the groups are those that were found, ... -/
  mem_layers : ∀ layer, layer ∈ groups.map (·.layer) ↔ layer ∈ found.map (·.1)
  /-- ... each once ... -/
  nodup : (groups.map (·.layer)).Nodup
  /-- ... and in the order in which they were found first. -/
  order : (groups.map (·.layer)).Pairwise fun a b =>
    (found.map (·.1)).idxOf a < (found.map (·.1)).idxOf b
  /-- A group has the ids that were found for its layer, in their order. -/
  ids : ∀ g ∈ groups, g.ids = (found.filter fun f => f.1 = g.layer).map (·.2)
  nonempty : ∀ g ∈ groups, g.ids ≠ []

/-- An id of a layer that has a group. -/
theorem addId_of_append {layer id : String} {before after : List FeatureIdGroup}
    {g : FeatureIdGroup} (hbefore : ∀ other ∈ before, other.layer ≠ layer) (hg : g.layer = layer) :
    addId layer id (before ++ g :: after) =
      before ++ { g with ids := g.ids ++ [id] } :: after := by
  induction before with
  | nil => rw [List.nil_append, addId, if_pos hg, List.nil_append]
  | cons other before ih =>
      obtain ⟨hother, hbefore⟩ := List.forall_mem_cons.1 hbefore
      rw [List.cons_append, addId, if_neg hother, ih hbefore, List.cons_append]

/-- An id of a layer without a group. -/
theorem addId_of_forall_ne {layer id : String} {groups : List FeatureIdGroup}
    (h : ∀ g ∈ groups, g.layer ≠ layer) : addId layer id groups = groups ++ [⟨layer, [id]⟩] := by
  induction groups with
  | nil => rfl
  | cons g groups ih =>
      obtain ⟨hg, hgroups⟩ := List.forall_mem_cons.1 h
      rw [addId, if_neg hg, ih hgroups, List.cons_append]

namespace IsGrouped

variable {found : List (String × String)} {groups : List FeatureIdGroup}

theorem nil : IsGrouped [] [] where
  mem_layers _ := Iff.rfl
  nodup := List.nodup_nil
  order := .nil
  ids := nofun
  nonempty := nofun

/-- The ids of a layer behind one more that was found. -/
theorem ids_append (found : List (String × String)) (layer id other : String) :
    ((found ++ [(layer, id)]).filter fun f => f.1 = other).map (·.2) =
      (found.filter fun f => f.1 = other).map (·.2) ++ if layer = other then [id] else [] := by
  rw [List.filter_append, List.map_append]
  split
  · next heq => simp [heq]
  · next hne => simp [hne]

/-- Where a layer was found first does not depend on what is found later. -/
theorem order_append (h : IsGrouped found groups) (layer : String) :
    (groups.map (·.layer)).Pairwise fun a b =>
      (found.map (·.1) ++ [layer]).idxOf a < (found.map (·.1) ++ [layer]).idxOf b := by
  refine h.order.imp_of_mem fun {a b} ha hb hab => ?_
  rwa [List.idxOf_append_of_mem ((h.mem_layers a).1 ha),
    List.idxOf_append_of_mem ((h.mem_layers b).1 hb)]

/-- An id of another layer does not change what was found for a group. -/
theorem ids_of_ne (h : IsGrouped found groups) {layer : String} (id : String) {g : FeatureIdGroup}
    (hg : g ∈ groups) (hne : g.layer ≠ layer) :
    g.ids = ((found ++ [(layer, id)]).filter fun f => f.1 = g.layer).map (·.2) := by
  rw [ids_append, if_neg hne.symm, List.append_nil, h.ids g hg]

/-- An id goes into the group of its layer, if there is one. -/
theorem addId_of_mem (h : IsGrouped found groups) {layer : String} (id : String)
    (hmem : layer ∈ groups.map (·.layer)) :
    IsGrouped (found ++ [(layer, id)]) (FeatureIdGroup.addId layer id groups) := by
  obtain ⟨g, hg, rfl⟩ := List.mem_map.1 hmem
  obtain ⟨before, after, rfl⟩ := List.append_of_mem hg
  -- No other group is that of the layer.
  have hnodup := h.nodup
  simp only [List.map_append, List.map_cons, List.nodup_append, List.nodup_cons, List.mem_map,
    List.mem_cons] at hnodup
  obtain ⟨-, ⟨hnotAfter, -⟩, hdisjoint⟩ := hnodup
  have hbefore : ∀ other ∈ before, other.layer ≠ g.layer := fun other ho =>
    hdisjoint _ ⟨other, ho, rfl⟩ _ (.inl rfl)
  have hafter : ∀ other ∈ after, other.layer ≠ g.layer := fun other ho heq =>
    hnotAfter ⟨other, ho, heq⟩
  have hlayers : (before ++ { g with ids := g.ids ++ [id] } :: after).map (·.layer) =
      (before ++ g :: after).map (·.layer) := by simp
  have hfound : (found ++ [(g.layer, id)]).map (·.1) = found.map (·.1) ++ [g.layer] := by simp
  have hmembers : ∀ x ∈ before ++ { g with ids := g.ids ++ [id] } :: after,
      x ∈ before ++ g :: after ∧ x.layer ≠ g.layer ∨ x = { g with ids := g.ids ++ [id] } := by
    intro x hx
    rcases List.mem_append.1 hx with hx | hx
    · exact .inl ⟨List.mem_append_left _ hx, hbefore x hx⟩
    · rcases List.mem_cons.1 hx with rfl | hx
      · exact .inr rfl
      · exact .inl ⟨List.mem_append_right _ (List.mem_cons_of_mem _ hx), hafter x hx⟩
  rw [addId_of_append hbefore rfl]
  refine ⟨fun other => ?_, hlayers ▸ h.nodup, ?_, fun x hx => ?_, fun x hx => ?_⟩
  · rw [hlayers, hfound, h.mem_layers, List.mem_append, List.mem_singleton]
    exact (or_iff_left_of_imp fun heq => heq ▸ (h.mem_layers _).1 hmem).symm
  · rw [hlayers, hfound]
    exact h.order_append g.layer
  · rcases hmembers x hx with ⟨hx, hne⟩ | rfl
    · exact h.ids_of_ne id hx hne
    · rw [ids_append, if_pos rfl, h.ids g hg]
  · rcases hmembers x hx with ⟨hx, -⟩ | rfl
    · exact h.nonempty x hx
    · exact List.concat_ne_nil id g.ids

/-- An id of a layer that has no group yet makes a group of its own. -/
theorem addId_of_notMem (h : IsGrouped found groups) {layer : String} (id : String)
    (hmem : layer ∉ groups.map (·.layer)) :
    IsGrouped (found ++ [(layer, id)]) (FeatureIdGroup.addId layer id groups) := by
  have hne : ∀ g ∈ groups, g.layer ≠ layer := fun g hg heq =>
    hmem (heq ▸ List.mem_map_of_mem hg)
  have hnew : layer ∉ found.map (·.1) := mt (h.mem_layers layer).2 hmem
  have hlayers : (groups ++ [(⟨layer, [id]⟩ : FeatureIdGroup)]).map (·.layer) =
      groups.map (·.layer) ++ [layer] := by simp
  have hfound : (found ++ [(layer, id)]).map (·.1) = found.map (·.1) ++ [layer] := by simp
  rw [addId_of_forall_ne hne]
  refine ⟨fun other => ?_, ?_, ?_, fun x hx => ?_, fun x hx => ?_⟩
  · rw [hlayers, hfound, List.mem_append, List.mem_append, h.mem_layers]
  · rw [hlayers, List.nodup_append]
    refine ⟨h.nodup, List.nodup_singleton layer, fun a ha b hb => ?_⟩
    rintro rfl
    exact hmem (List.mem_singleton.1 hb ▸ ha)
  · rw [hlayers, hfound, List.pairwise_append]
    refine ⟨h.order_append layer, List.pairwise_singleton _ _, fun a ha b hb => ?_⟩
    -- The layer is found behind all that were found before.
    rw [List.mem_singleton.1 hb, List.idxOf_append_of_mem ((h.mem_layers a).1 ha),
      List.idxOf_append_of_notMem hnew]
    exact Nat.lt_add_right _ (List.idxOf_lt_length_of_mem ((h.mem_layers a).1 ha))
  · rcases List.mem_append.1 hx with hx | hx
    · exact h.ids_of_ne id hx (hne x hx)
    · obtain rfl := List.mem_singleton.1 hx
      have hnone : (found.filter fun f => f.1 = layer) = [] :=
        List.filter_eq_nil_iff.2 fun f hf heq =>
          hnew (List.mem_map.2 ⟨f, hf, of_decide_eq_true heq⟩)
      rw [ids_append, if_pos rfl, hnone]
      rfl
  · rcases List.mem_append.1 hx with hx | hx
    · exact h.nonempty x hx
    · obtain rfl := List.mem_singleton.1 hx
      exact List.cons_ne_nil id []

/-- One more id is added to its layer. -/
theorem addId (h : IsGrouped found groups) (layer id : String) :
    IsGrouped (found ++ [(layer, id)]) (FeatureIdGroup.addId layer id groups) := by
  by_cases hmem : layer ∈ groups.map (·.layer)
  · exact h.addId_of_mem id hmem
  · exact h.addId_of_notMem id hmem

/-- All ids are added one after another. -/
theorem foldl_addId (found : List (String × String)) :
    IsGrouped found
      (found.foldl (fun groups (layer, id) => FeatureIdGroup.addId layer id groups) []) := by
  induction found using List.reverseRecOn with
  | nil => exact .nil
  | append_singleton found f ih =>
      rw [List.foldl_append]
      exact ih.addId f.1 f.2

/-- There is one list of groups for what was found. -/
theorem eq {groups' : List FeatureIdGroup} (h : IsGrouped found groups)
    (h' : IsGrouped found groups') : groups = groups' := by
  let earlier : String → String → Prop := fun a b =>
    (found.map (·.1)).idxOf a < (found.map (·.1)).idxOf b
  have : Std.Irrefl earlier := ⟨fun a => Nat.lt_irrefl _⟩
  have : Std.Antisymm earlier := ⟨fun a b hab hba => absurd hab (Nat.lt_asymm hba)⟩
  have hlayers : groups.map (·.layer) = groups'.map (·.layer) :=
    List.Pairwise.eq_of_mem_iff (r := earlier) h.order h'.order fun layer => by
      rw [h.mem_layers, h'.mem_layers]
  -- A group is made up of its layer and of what was found for it.
  have hgroups {gs : List FeatureIdGroup} (hgs : IsGrouped found gs) :
      gs = (gs.map (·.layer)).map fun layer =>
        ⟨layer, (found.filter fun f => f.1 = layer).map (·.2)⟩ := by
    rw [List.map_map]
    refine (List.map_id' gs).symm.trans (List.map_congr_left fun g hg => ?_)
    rw [Function.comp_apply, ← hgs.ids g hg]
  rw [hgroups h, hgroups h', hlayers]

end IsGrouped

/-! ## Requests -/

/-- The pieces of a text between its commas. -/
structure IsCommaList (request : String) (pieces : List String) : Prop where
  text : request = String.intercalate "," pieces
  nonempty : pieces ≠ []
  noComma : ∀ piece ∈ pieces, ',' ∉ piece.toList

theorem notMem_of_mem_splitOn {c : Char} {cs piece : List Char} (h : piece ∈ cs.splitOn c) :
    c ∉ piece := by
  induction cs generalizing piece with
  | nil =>
      rw [List.splitOn_nil, List.mem_singleton] at h
      exact h ▸ List.not_mem_nil
  | cons x cs ih =>
      rw [List.splitOn_cons_eq_if_modifyHead] at h
      split at h
      · rcases List.mem_cons.1 h with rfl | h
        · exact List.not_mem_nil
        · exact ih h
      · next hx =>
        rw [beq_iff_eq] at hx
        cases hpieces : cs.splitOn c with
        | nil => exact absurd hpieces (List.splitOn_ne_nil c cs)
        | cons first rest =>
            rw [hpieces, List.modifyHead_cons] at h
            rw [hpieces] at ih
            rcases List.mem_cons.1 h with rfl | h
            · exact List.not_mem_cons_of_ne_of_not_mem (Ne.symm hx) (ih List.mem_cons_self)
            · exact ih (List.mem_cons_of_mem _ h)

/-- A text has the pieces that it is cut into at its commas, and no others. -/
theorem isCommaList_iff {request : String} {pieces : List String} :
    IsCommaList request pieces ↔ pieces = Text.pieces ',' request := by
  constructor
  · rintro ⟨rfl, hnonempty, hcomma⟩
    have hcommas : ∀ piece ∈ pieces.map String.toList, ',' ∉ piece := by
      rintro _ hpiece
      obtain ⟨piece, hmem, rfl⟩ := List.mem_map.1 hpiece
      exact hcomma piece hmem
    have hcut := List.splitOn_intercalate ',' hcommas (mt List.map_eq_nil_iff.1 hnonempty)
    have htext : (String.intercalate "," pieces).toList =
        [','].intercalate (pieces.map String.toList) := by
      rw [String.toList_intercalate]
      rfl
    rw [Text.pieces, htext, hcut, List.map_map]
    exact (List.map_id'' (fun piece => String.ofList_toList) pieces).symm
  · rintro rfl
    refine ⟨?_, ?_, fun piece hpiece => ?_⟩
    · have hsame : (String.toList ∘ String.ofList : List Char → List Char) = id :=
        funext fun _ => String.toList_ofList
      rw [← String.toList_inj, String.toList_intercalate, Text.pieces, List.map_map, hsame,
        List.map_id]
      exact (List.intercalate_splitOn ',').symm
    · exact mt List.map_eq_nil_iff.1 (List.splitOn_ne_nil ',' _)
    · obtain ⟨cs, hcs, rfl⟩ := List.mem_map.1 hpiece
      rw [String.toList_ofList]
      exact notMem_of_mem_splitOn hcs

/-- What the tokens of a request are answered with. -/
inductive Answers (layers tokens : List String) :
    Except FeatureIdError (List FeatureIdGroup) → Prop
  /-- The first token that belongs to no layer is named. -/
  | refused {before after : List String} {token : String}
      (htokens : tokens = before ++ token :: after)
      (hbefore : ∀ other ∈ before, IsResolvable layers other)
      (htoken : ¬IsResolvable layers token) : Answers layers tokens (.error (refusal token))
  /-- All tokens belong to layers. -/
  | grouped {found : List (String × String)} {groups : List FeatureIdGroup}
      (hfound : List.Forall₂ (fun token f => Belongs layers token f.1 f.2) tokens found)
      (hgroups : IsGrouped found groups) : Answers layers tokens (.ok groups)

theorem mapM_resolveToken_eq_ok_iff {tokens : List String} {found : List (String × String)} :
    tokens.mapM (resolveToken layers) = .ok found ↔
      List.Forall₂ (fun token f => Belongs layers token f.1 f.2) tokens found := by
  have hbelongs (token : String) (f : String × String) :
      resolveToken layers token = .ok f ↔ Belongs layers token f.1 f.2 := resolveToken_eq_ok_iff
  simp only [mapM_eq_ok_iff, hbelongs]

theorem mapM_resolveToken_eq_error_iff {tokens : List String} {e : FeatureIdError} :
    tokens.mapM (resolveToken layers) = .error e ↔
      ∃ before token after, tokens = before ++ token :: after ∧
        (∀ other ∈ before, IsResolvable layers other) ∧
          ¬IsResolvable layers token ∧ e = refusal token := by
  have hresolvable (other : String) :
      (∃ f, resolveToken layers other = .ok f) ↔ IsResolvable layers other := by
    rw [Prod.exists]
    exact exists₂_congr fun layer id => resolveToken_eq_ok_iff
  simp only [mapM_eq_error_iff, hresolvable, resolveToken_eq_error_iff]

theorem answers_iff {tokens : List String}
    {answer : Except FeatureIdError (List FeatureIdGroup)} :
    (do let found ← tokens.mapM (resolveToken layers)
        pure (found.foldl (fun groups (layer, id) => addId layer id groups) [])) = answer ↔
      Answers layers tokens answer := by
  constructor
  · rintro rfl
    rcases hfound : tokens.mapM (resolveToken layers) with e | found
    · obtain ⟨before, token, after, htokens, hbefore, htoken, rfl⟩ :=
        mapM_resolveToken_eq_error_iff.1 hfound
      exact .refused htokens hbefore htoken
    · exact .grouped (mapM_resolveToken_eq_ok_iff.1 hfound) (.foldl_addId found)
  · rintro (⟨htokens, hbefore, htoken⟩ | ⟨hfound, hgroups⟩)
    · rw [mapM_resolveToken_eq_error_iff.2 ⟨_, _, _, htokens, hbefore, htoken, rfl⟩]
      rfl
    · rw [mapM_resolveToken_eq_ok_iff.2 hfound]
      exact congrArg Except.ok ((IsGrouped.foldl_addId _).eq hgroups)

/-- A request is taken apart into tokens, its pieces without the blanks around them and without
empty ones, and answered with the groups of what they ask for.  If a token belongs to no layer, the
request is refused with an error that names the first such token. -/
theorem resolve_eq_iff {layers : List String} {request : String}
    {answer : Except FeatureIdError (List FeatureIdGroup)} :
    resolve layers request = answer ↔ ∃ pieces, IsCommaList request pieces ∧
      Answers layers ((pieces.map Text.trim).filter (· != "")) answer := by
  simp only [isCommaList_iff, exists_eq_left]
  exact answers_iff

/-- Two layers that differ in letter case: the first counts, whatever the case of the type name, and
a repeated id is repeated. -/
example : resolve ["Roads", "ROADS", "a.b"] "roads.2, a.b.1,ROADS.1 ,,Roads.2" =
    .ok [⟨"Roads", ["2", "1", "2"]⟩, ⟨"a.b", ["1"]⟩] := by
  decide +kernel

end FilterEncoding.FeatureIdGroup
