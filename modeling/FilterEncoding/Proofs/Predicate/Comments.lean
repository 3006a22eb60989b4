import FilterEncoding.Proofs.Predicate.Outline
import FilterEncoding.Proofs.Predicate.WellFormed
import FilterEncoding.Proofs.Xml.Names
import FilterEncoding.Proofs.Xml.Words

/-!
# Comments in documents

A comment in the content of an element makes no difference to the predicate that is read, with two
exceptions.  The text of an element ends where a comment stands, so that what follows the comment is
lost.  And tags in a comment are taken for tags if the comment starts as the end of one does.

* `Xml.contentAt?` — the element in whose content a position is.
* `Xml.exists_document?_comment` — the tree of a document with a comment.
* `Predicate.ofDocument_comment` — the predicate of a document with a comment.
-/

namespace FilterEncoding

open FilterEncoding.Xml

namespace Xml

/-- The element in whose content a position is, from the text in front of the position.  There is
none inside a tag or a section, and none outside the root. -/
def contentAt? (before : List Char) : Option OpenElement :=
  if endsPiece before then (reading? (unprefixedChars before)).bind fun r => r.open?.head? else none

theorem exists_reading_of_contentAt? {before : List Char} {e : OpenElement}
    (h : contentAt? before = some e) : endsPiece before = true ∧
      ∃ r es, reading? (unprefixedChars before) = some r ∧ r.open? = e :: es := by
  obtain ⟨hends, h⟩ := Option.ite_none_right_eq_some.1 h
  obtain ⟨r, hr, hhead⟩ := Option.bind_eq_some_iff.1 h
  exact ⟨hends, r, r.open?.tail, hr, List.eq_cons_of_mem_head? hhead⟩

/-- The body of a comment, which hides it from the removal of prefixes. -/
structure IsHiddenComment (body : List Char) : Prop where
  allowed : body.all isAllowed = true
  wellFormed : isCommentBody body = true
  hidden : IsHidden body

/-- A document with a comment has the outline that it has without. -/
theorem exists_document?_comment {before body after : List Char} {e : OpenElement} {root : Node}
    (hplace : contentAt? before = some e) (hbody : IsHiddenComment body)
    (hharmless : Harmless e (unprefixedChars after))
    (h : document? (String.ofList (unprefixedChars (before ++ after))) = some root) :
    ∃ root', document? (String.ofList (unprefixedChars
        (before ++ (commentChars body ++ after)))) = some root' ∧ root.outline = root'.outline := by
  obtain ⟨hends, r, es, hr, hopen⟩ := exists_reading_of_contentAt? hplace
  have hcomment := unprefixedChars_comment (not_infix_of_isCommentBody hbody.wellFormed)
    hbody.hidden after
  rw [unprefixedChars_append hends] at h ⊢
  rw [document?_ofList] at h
  obtain ⟨hallowed, h⟩ := Option.ite_none_right_eq_some.1 h
  obtain ⟨q, hq, h⟩ := Option.bind_eq_some_iff.1 h
  -- The comment is read at the place where the element is open, and what follows as before.
  obtain ⟨q', hq', halike⟩ := exists_alike_comment hr hopen hbody.wellFormed hharmless hq
  obtain ⟨root', hroot', houtline⟩ := halike.finish? h
  have hallowed' : (unprefixedChars before ++
      (commentChars body ++ unprefixedChars after)).all isAllowed = true := by
    have hdelimiters : (['<', '!', '-', '-'] : List Char).all isAllowed = true ∧
        (['-', '-', '>'] : List Char).all isAllowed = true := by decide
    rw [List.all_append, Bool.and_eq_true] at hallowed
    simp only [commentChars, List.all_append, hallowed.1, hallowed.2, hbody.allowed,
      hdelimiters.1, hdelimiters.2, Bool.and_self]
  refine ⟨root', ?_, houtline⟩
  rw [hcomment, document?_ofList, if_pos hallowed', hq', Option.bind_some, hroot']

end Xml

namespace Predicate

/-- Filter elements with the same outline give the same predicate. -/
theorem ofFilter_eq_of_outline_eq {filter filter' : Node}
    (h : filter.outline = filter'.outline) : ofFilter filter = ofFilter filter' := by
  rw [← ofFilter_outline, h, ofFilter_outline]

/-- Trees with the same outline have filters with the same outline. -/
theorem exists_filter_of_outline_eq {root root' filter : Node}
    (h : root.outline = root'.outline)
    (hfilter : root.nodes.find? (Node.named "Filter") = some filter) :
    ∃ filter', root'.nodes.find? (Node.named "Filter") = some filter' ∧
      filter.outline = filter'.outline := by
  have hfind := (Node.areOutlines_nodes root).find?_named "Filter"
  rw [h, (Node.areOutlines_nodes root').find?_named, hfilter, Option.map_some,
    Option.map_eq_some_iff] at hfind
  obtain ⟨filter', hfilter', houtline⟩ := hfind
  exact ⟨filter', hfilter', houtline.symm⟩

/-- A document with a filter element has the word that is looked for first. -/
theorem contains_filter {text : String} {root filter : Node}
    (hroot : document? (unprefixed text) = some root)
    (hfilter : root.nodes.find? (Node.named "Filter") = some filter) :
    Text.contains "Filter" text = true := by
  -- The name of the element comes from the text without prefixes, and no prefix adds to it.
  have hname := (Node.named_iff _ _).1 (List.find?_some hfilter)
  have hwithin := infix_of_named_document? hroot (List.mem_of_find?_eq_some hfilter) hname
  have hword : IsWord "Filter".toList := ⟨by simp, by simp [delimiters]⟩
  exact Chars.occurs_iff_infix.2 (hword.infix_of_unprefixedChars hwithin)

/-- The predicate of a document is that of its filter element. -/
theorem ofDocument_of_filter {text : String} {root filter : Node}
    (hroot : document? (unprefixed text) = some root)
    (hfilter : root.nodes.find? (Node.named "Filter") = some filter) :
    ofDocument text = ofFilter filter >>= validated := by
  rw [ofDocument, if_pos (contains_filter hroot hfilter), hroot]
  dsimp only
  rw [hfilter]

/-- A comment in the content of an element makes no difference to a document that is read, unless
it stands in text that is read or has tags and starts as the end of a comment does. -/
theorem ofDocument_comment {before body after : String} {e : OpenElement} {p : Predicate}
    (hplace : contentAt? before.toList = some e) (hbody : IsHiddenComment body.toList)
    (hharmless : Harmless e (unprefixedChars after.toList))
    (h : ofDocument (before ++ after) = .ok p) :
    ofDocument (before ++ ("<!--" ++ body ++ "-->") ++ after) = .ok p := by
  obtain ⟨root, filter, hroot, hfilter, hp⟩ := exists_filter_of_ofDocument h
  rw [unprefixed, String.toList_append] at hroot
  obtain ⟨root', hroot', houtline⟩ := exists_document?_comment hplace hbody hharmless hroot
  obtain ⟨filter', hfilter', houtline'⟩ := exists_filter_of_outline_eq houtline hfilter
  have htext : document? (unprefixed (before ++ ("<!--" ++ body ++ "-->") ++ after)) =
      some root' := by
    rw [unprefixed, ← hroot']
    simp [commentChars]
  rw [ofDocument_of_filter htext hfilter', ← ofFilter_eq_of_outline_eq houtline', hp]

/-- The value that an attribute is compared with. -/
def comparedValue? : Predicate → Option String
  | comparison _ _ (literal value _) _ => value
  | _ => none

set_option maxRecDepth 4096 in
/-- A comment behind text that is read, with a tag, a quote and a prefix in it. -/
theorem ofDocument_comment_behind_text : ∃ p,
    ofDocument ("<o:Filter><PropertyIsEqualTo><PropertyName>N</PropertyName><o:Literal>road" ++
      "</o:Literal></PropertyIsEqualTo></o:Filter>") = .ok p ∧
    p.comparedValue? = some "road" ∧
    ofDocument ("<o:Filter><PropertyIsEqualTo><PropertyName>N</PropertyName><o:Literal>road" ++
      ("<!--" ++ " <o:Literal a='>" ++ "-->") ++
      "</o:Literal></PropertyIsEqualTo></o:Filter>") = .ok p := by
  rw [show "<o:Filter><PropertyIsEqualTo><PropertyName>N</PropertyName><o:Literal>road" =
      String.ofList _ from rfl,
    show "</o:Literal></PropertyIsEqualTo></o:Filter>" = String.ofList _ from rfl,
    show " <o:Literal a='>" = String.ofList _ from rfl]
  refine exists_ok_of_toOption_map ?_ fun p hp => ?_
  · simp only [← String.ofList_append, ofDocument, Text.contains, unprefixed,
      String.toList_ofList, document?_ofList]
    decide +kernel
  · refine ofDocument_comment (Option.some_get ?isSome).symm ?_ (.inr (.inr ?_)) hp
    case isSome =>
      rw [String.toList_ofList]
      decide +kernel
    · rw [String.toList_ofList]
      exact ⟨by decide, by decide, fun _ => by decide⟩
    · rw [String.toList_ofList]
      exact ⟨.inr (exists_unprefixedChars_cons _), by decide +kernel⟩

set_option maxRecDepth 4096 in
/-- A comment in text that is read ends it. -/
theorem ofDocument_comment_in_text : ∃ p,
    ofDocument ("<Filter><PropertyIsEqualTo><PropertyName>N</PropertyName><Literal>ro" ++
      "ad</Literal></PropertyIsEqualTo></Filter>") = .ok p ∧
    p.comparedValue? = some "road" ∧
    ∃ p', ofDocument ("<Filter><PropertyIsEqualTo><PropertyName>N</PropertyName><Literal>ro" ++
      ("<!--" ++ "c" ++ "-->") ++ "ad</Literal></PropertyIsEqualTo></Filter>") = .ok p' ∧
    p'.comparedValue? = some "ro" ∧
    IsHiddenComment "c".toList ∧
    ∃ e, contentAt? "<Filter><PropertyIsEqualTo><PropertyName>N</PropertyName><Literal>ro".toList =
      some e := by
  rw [show "<Filter><PropertyIsEqualTo><PropertyName>N</PropertyName><Literal>ro" =
      String.ofList _ from rfl,
    show "ad</Literal></PropertyIsEqualTo></Filter>" = String.ofList _ from rfl,
    show "<!--" = String.ofList _ from rfl, show "c" = String.ofList _ from rfl,
    show "-->" = String.ofList _ from rfl]
  simp only [← String.ofList_append, ofDocument, Text.contains, unprefixed,
    String.toList_ofList, document?_ofList]
  refine exists_ok_of_toOption_map ?_ fun _ _ => exists_ok_of_toOption_map ?_ fun _ _ => ⟨?_, ?_⟩
  · decide +kernel
  · decide +kernel
  · exact ⟨by decide, by decide, fun htag => by simp at htag⟩
  · rw [← Option.isSome_iff_exists]
    decide +kernel

/-- A comment that starts as the end of one, with a tag in it. -/
example : (ofDocument ("<f:Filter>" ++ "<f:FeatureId fid='r.1'/></f:Filter>")).toOption.isSome ∧
    (ofDocument ("<f:Filter>" ++ ("<!--" ++ "><a b='" ++ "-->") ++
      "<f:FeatureId fid='r.1'/></f:Filter>")).toOption.isNone := by
  decide +kernel

end Predicate

end FilterEncoding
