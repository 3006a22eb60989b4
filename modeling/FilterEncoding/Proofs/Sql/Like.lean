import FilterEncoding.Layer.Schema
import FilterEncoding.Proofs.Expression.Expressing
import FilterEncoding.Proofs.Like.SameTexts
import FilterEncoding.Proofs.Like.Tokens
import FilterEncoding.Proofs.Reading.Literal

/-!
# Patterns in SQL

A pattern of SQL is one of the same kind, with the percent sign as its wildcard, the underscore as
its single character, and the escape character that the clause behind the literal declares.  The
wildcard and the single character of a filter are written as those of SQL, and every other character
is written as it is, also where it is one of the two.

* `Sql.decodes_patternChars` — what the literal says of a pattern.
* `Sql.items_written_of_keeps` — where each character keeps its meaning, so does the pattern.
* `Sql.keeps_of_same_texts` — where the same texts fit, each character keeps its meaning.
* `Sql.like_same_texts_iff` — the statement about expressions.
-/

namespace FilterEncoding

open FilterEncoding.Geometry (Engine)
open Like (Fits Item Reads Token fixed items tokens)

namespace Sql

open Reading (Decodes literal?)

/-- The metacharacters of SQL with a declared escape character. -/
def metacharacters (escape : Char) : Metacharacters :=
  ⟨'%', '_', escape⟩

variable {m : Metacharacters} {cs : List Char}

/-! ## Writing -/

/-- The character that a plain character of a pattern is written as. -/
def writtenChar (m : Metacharacters) (c : Char) : Char :=
  if c = m.single then '_' else if c = m.wildcard then '%' else c

theorem writtenChar_wildcard (hm : m.Distinct) : writtenChar m m.wildcard = '%' := by
  rw [writtenChar, if_neg hm.wildcard_ne_single, if_pos rfl]

theorem writtenChar_single (m : Metacharacters) : writtenChar m m.single = '_' :=
  if_pos rfl

theorem writtenChar_of_ne {c : Char} (hwildcard : c ≠ m.wildcard) (hsingle : c ≠ m.single) :
    writtenChar m c = c := by
  rw [writtenChar, if_neg hsingle, if_neg hwildcard]

def writtenToken (m : Metacharacters) : Token → Token
  | .plain c => .plain (writtenChar m c)
  | t => t

/-- The pattern that the literal says. -/
def written (m : Metacharacters) (cs : List Char) : List Char :=
  ((tokens m.escape cs).map (writtenToken m)).flatMap (Token.chars m.escape)

/-- The characters of the literal for a token. -/
def tokenChars (m : Metacharacters) : Token → List Char
  | .plain c => patternChar m c
  | .escaped d => m.escape :: escapedChar d
  | .loneEscape => [m.escape]

theorem isEscape_escape (hm : m.Distinct) : isEscape m m.escape = true := by
  simp [isEscape, hm.single_ne_escape.symm, hm.wildcard_ne_escape.symm]

theorem isEscape_of_ne {c : Char} (hc : c ≠ m.escape) : isEscape m c = false := by
  simp [isEscape, hc]

theorem patternChars_eq_flatMap_tokens (hm : m.Distinct) (cs : List Char) :
    patternChars m cs = (tokens m.escape cs).flatMap (tokenChars m) := by
  fun_induction tokens m.escape cs with
  | case1 => rfl
  | case2 => rw [patternChars, if_pos (isEscape_escape hm)]; rfl
  | case3 c hc =>
      rw [patternChars, isEscape_of_ne hc, if_neg Bool.false_ne_true, List.flatMap_singleton]
      rfl
  | case4 d cs ih => rw [patternChars, if_pos (isEscape_escape hm), ih]; rfl
  | case5 c d cs hc ih =>
      rw [patternChars, isEscape_of_ne hc, if_neg Bool.false_ne_true, ih]
      rfl

/-! ## The literal -/

/-- What two characters of a literal stand for together: a doubled quote is one. -/
def pair? (c d : Char) : Option Char :=
  if c = '\'' ∧ d = '\'' then some '\'' else none

theorem decodes_char {c : Char} (hc : c ≠ '\'') : Decodes pair? '\'' [c] [c] :=
  Reading.decodes_char hc fun _ => if_neg fun h => hc h.1

theorem decodes_escapedChar (c : Char) : Decodes pair? '\'' (escapedChar c) [c] := by
  unfold escapedChar
  split
  · next hc =>
    subst hc
    exact Reading.decodes_pair rfl
  · next hc => exact decodes_char hc

theorem decodes_patternChar {c : Char} (hc : c ≠ '\\') :
    Decodes pair? '\'' (patternChar m c) [writtenChar m c] := by
  unfold patternChar writtenChar
  split
  · exact decodes_char (by decide)
  · split
    · exact decodes_char (by decide)
    · -- Without the case of the backslash, a quote is doubled as behind an escape character.
      exact decodes_escapedChar c

theorem decodes_tokenChars (hescape : m.escape ≠ '\'') {t : Token}
    (ht : ∀ c, t = .plain c → c ≠ '\\') :
    Decodes pair? '\'' (tokenChars m t) ((writtenToken m t).chars m.escape) := by
  cases t with
  | plain c => exact decodes_patternChar (ht c rfl)
  | escaped d => exact (decodes_char hescape).append (decodes_escapedChar d)
  | loneEscape => exact decodes_char hescape

/-- A literal without backslashes says the pattern. -/
theorem decodes_patternChars (hm : m.Distinct) (hescape : m.escape ≠ '\'') (hcs : '\\' ∉ cs) :
    Decodes pair? '\'' (patternChars m cs) (written m cs) := by
  rw [patternChars_eq_flatMap_tokens hm, written, List.flatMap_map]
  refine Decodes.flatMap fun t ht => decodes_tokenChars hescape fun c hc hbackslash => hcs ?_
  subst hc hbackslash
  exact Like.mem_of_mem_tokens ht (List.mem_singleton_self _)

/-- The character of a literal of one character.  A backslash is written as two. -/
def character? (literal : String) : Option Char :=
  match literal.toList with
  | [opening, c, closing] => if opening = '\'' ∧ closing = '\'' then some c else none
  | _ => if literal = "'\\\\'" ∨ literal = "E'\\\\'" then some '\\' else none

theorem exists_escapeClause {connection : Connection} (h : connection ≠ .ogr) (escape : Char) :
    ∃ declared, escapeClause connection escape = " escape " ++ declared ∧
      character? declared = some escape := by
  unfold escapeClause
  rw [if_neg h]
  split
  · next hbackslash =>
    subst hbackslash
    split
    · exact ⟨"E'\\\\'", rfl, rfl⟩
    · exact ⟨"'\\\\'", rfl, rfl⟩
  · refine ⟨"'" ++ String.singleton escape ++ "'", ?_, ?_⟩
    · rw [← String.append_assoc, ← String.append_assoc]
      rfl
    · rw [character?, String.toList_append, String.toList_append, String.toList_singleton]
      exact if_pos ⟨rfl, rfl⟩

/-! ## Meanings that are kept -/

/-- Whether a plain character keeps its meaning: a metacharacter is not written as the escape
character, and no other character is a metacharacter of SQL. -/
def Keeps (m : Metacharacters) (c : Char) : Prop :=
  if c = m.wildcard then m.escape ≠ '%'
  else if c = m.single then m.escape ≠ '_'
  else c ≠ '%' ∧ c ≠ '_'

instance (m : Metacharacters) (c : Char) : Decidable (Keeps m c) := by
  unfold Keeps
  infer_instance

/-- A character keeps its meaning, if it is not written as the escape character and what it is
written as has the meaning in SQL. -/
theorem keeps_iff (hm : m.Distinct) {c : Char} (hc : c ≠ m.escape) :
    Keeps m c ↔ writtenChar m c ≠ m.escape ∧
      Item.ofChar (metacharacters m.escape) (writtenChar m c) = Item.ofChar m c := by
  unfold Keeps
  by_cases hwildcard : c = m.wildcard
  · rw [if_pos hwildcard, hwildcard, writtenChar_wildcard hm, Item.ofChar_wildcard]
    exact ⟨fun h => ⟨h.symm, rfl⟩, fun h => h.1.symm⟩
  · rw [if_neg hwildcard]
    by_cases hsingle : c = m.single
    · rw [if_pos hsingle, hsingle, writtenChar_single, Item.ofChar_single hm]
      exact ⟨fun h => ⟨h.symm, rfl⟩, fun h => h.1.symm⟩
    · rw [if_neg hsingle, writtenChar_of_ne hwildcard hsingle, Item.ofChar_of_ne hwildcard hsingle]
      constructor
      · rintro ⟨hpercent, hunderscore⟩
        exact ⟨hc, Item.ofChar_of_ne hpercent hunderscore⟩
      · rintro ⟨-, hitem⟩
        constructor
        · rintro rfl
          cases hitem
        · rintro rfl
          cases hitem

/-- In SQL, a character that is no metacharacter of the filter can stand for a run or one. -/
theorem loosens_ofChar (hm : m.Distinct) (escape c : Char) :
    (Item.ofChar m c).Loosens (Item.ofChar (metacharacters escape) (writtenChar m c)) := by
  by_cases hwildcard : c = m.wildcard
  · rw [hwildcard, writtenChar_wildcard hm, Item.ofChar_wildcard]
    exact .same .run
  · by_cases hsingle : c = m.single
    · rw [hsingle, writtenChar_single, Item.ofChar_single hm]
      exact .same .one
    · rw [writtenChar_of_ne hwildcard hsingle, Item.ofChar_of_ne hwildcard hsingle, Item.ofChar]
      split
      · exact .run c
      · split
        · exact .one c
        · exact .same (.char c)

/-- If no plain character is written as the escape character, the tokens stay what they are. -/
theorem items_written (hlone : .loneEscape ∉ tokens m.escape cs)
    (hplain : ∀ c, .plain c ∈ tokens m.escape cs → writtenChar m c ≠ m.escape) :
    items (metacharacters m.escape) (written m cs) =
      (tokens m.escape cs).flatMap
        fun t => (writtenToken m t).items (metacharacters m.escape) := by
  have htokens : tokens m.escape (written m cs) =
      (tokens m.escape cs).map (writtenToken m) := by
    refine Like.tokens_flatMap_chars (fun c hc => ?_) fun h => ?_
    · obtain ⟨t, ht, heq⟩ := List.mem_map.1 hc
      cases t <;> cases heq
      exact hplain _ ht
    · obtain ⟨t, ht, heq⟩ := List.mem_map.1 h
      cases t <;> cases heq
      exact hlone ht
  rw [Like.items_eq_flatMap_tokens]
  exact (congrArg (List.flatMap _) htokens).trans (List.flatMap_map _ _ _)

theorem items_written_of_keeps (hm : m.Distinct) (hlone : .loneEscape ∉ tokens m.escape cs)
    (h : ∀ c, .plain c ∈ tokens m.escape cs → Keeps m c) :
    items (metacharacters m.escape) (written m cs) = items m cs := by
  have hkeeps : ∀ c, .plain c ∈ tokens m.escape cs → writtenChar m c ≠ m.escape ∧
      Item.ofChar (metacharacters m.escape) (writtenChar m c) = Item.ofChar m c := fun c hc =>
    (keeps_iff hm (Like.ne_of_plain_mem_tokens hc)).1 (h c hc)
  rw [items_written hlone fun c hc => (hkeeps c hc).1, Like.items_eq_flatMap_tokens]
  refine List.flatMap_congr fun t ht => ?_
  cases t with
  | plain c => exact congrArg ([·]) (hkeeps c ht).2
  | escaped d => rfl
  | loneEscape => rfl

/-! ## Meanings that are lost -/

/-- Where the same texts fit, no plain character is written as the escape character. -/
theorem writtenChar_ne_escape (hm : m.Distinct)
    (h : ∀ text, Fits (items (metacharacters m.escape) (written m cs)) text ↔
      Fits (items m cs) text) {c : Char} (hc : .plain c ∈ tokens m.escape cs) :
    writtenChar m c ≠ m.escape := by
  have hread := Like.reads_items (metacharacters m.escape) (written m cs)
  have hitem := Like.ofChar_mem_items hc
  by_cases hwildcard : c = m.wildcard
  · -- A percent sign that is the escape character leaves no way to write a run.
    rw [hwildcard, Item.ofChar_wildcard] at hitem
    rw [hwildcard, writtenChar_wildcard hm]
    exact hread.wildcard_ne_escape (Like.run_mem_of_fits_iff (fun text => (h text).symm) hitem)
  · by_cases hsingle : c = m.single
    · rw [hsingle, Item.ofChar_single hm] at hitem
      rw [hsingle, writtenChar_single]
      have hfixed : .one ∈ fixed (items m cs) := List.mem_filter.2 ⟨hitem, by decide⟩
      rw [← Like.fixed_eq_of_fits_iff h] at hfixed
      exact hread.single_ne_escape (List.mem_of_mem_filter hfixed)
    · rw [writtenChar_of_ne hwildcard hsingle]
      exact Like.ne_of_plain_mem_tokens hc

theorem loosens_flatMap_items (hm : m.Distinct) (ts : List Token) :
    List.Forall₂ Item.Loosens (ts.flatMap (Token.items m))
      (ts.flatMap fun t => (writtenToken m t).items (metacharacters m.escape)) := by
  induction ts with
  | nil => exact .nil
  | cons t ts ih =>
      cases t with
      | plain c => exact .cons (loosens_ofChar hm m.escape c) ih
      | escaped d => exact .cons (.same (.char d)) ih
      | loneEscape => exact ih

theorem ofChar_eq_of_flatMap_eq {ts : List Token} {c : Char}
    (h : ts.flatMap (Token.items m) =
      ts.flatMap fun t => (writtenToken m t).items (metacharacters m.escape))
    (hc : .plain c ∈ ts) :
    Item.ofChar m c = Item.ofChar (metacharacters m.escape) (writtenChar m c) := by
  induction ts with
  | nil => cases hc
  | cons t ts ih =>
      cases t with
      | plain d =>
          obtain ⟨hhead, htail⟩ := List.cons.inj h
          rcases List.mem_cons.1 hc with hplain | hrest
          · cases hplain
            exact hhead
          · exact ih htail hrest
      | escaped d => exact ih (List.cons.inj h).2 ((List.mem_cons.1 hc).resolve_left nofun)
      | loneEscape => exact ih h ((List.mem_cons.1 hc).resolve_left nofun)

/-- Where the same texts fit, each plain character keeps its meaning: the tokens stay what they are,
and a character that stood for more than itself would loosen the pattern. -/
theorem keeps_of_same_texts (hm : m.Distinct) (hlone : .loneEscape ∉ tokens m.escape cs)
    (h : ∀ text, Fits (items (metacharacters m.escape) (written m cs)) text ↔
      Fits (items m cs) text) {c : Char} (hc : .plain c ∈ tokens m.escape cs) : Keeps m c := by
  have hplain : ∀ d, .plain d ∈ tokens m.escape cs → writtenChar m d ≠ m.escape := fun d hd =>
    writtenChar_ne_escape hm h hd
  have hfixed := Like.fixed_eq_of_fits_iff h
  rw [items_written hlone hplain, Like.items_eq_flatMap_tokens] at hfixed
  have hitems := Like.eq_of_loosens_of_fixed_eq (loosens_flatMap_items hm _) hfixed.symm
  exact (keeps_iff hm (Like.ne_of_plain_mem_tokens hc)).2
    ⟨hplain c hc, (ofChar_eq_of_flatMap_eq hitems hc).symm⟩

/-! ## Expressions -/

/-- The pattern of a filter and the one that SQL reads are fitted by the same texts exactly if each
character that is not escaped keeps its meaning.  A percent sign or an underscore that is no
metacharacter of the filter becomes one, and a percent sign or an underscore that is the escape
character takes the meaning of the wildcard or single character away. -/
theorem like_same_texts_iff {layer : Layer} {o : LikeOptions} {pattern : String}
    (hconnection : layer.connection ≠ .ogr) (ho : o.Declares m) (hm : m.Distinct)
    (hcase : o.ignoreCase = false) (hescape : m.escape ≠ '\'')
    (hbackslash : '\\' ∉ pattern.toList) (hlone : .loneEscape ∉ tokens m.escape pattern.toList)
    (engine : Engine) (name : String) (ignoreCase : Bool) :
    ∃ items behind written declared sqlItems, Reads m pattern.toList items ∧
      Dialect.sql.compile layer engine (.comparison .like (.property name)
          (.literal (some pattern) ignoreCase) (some o)) =
        .ok (some (" (" ++ layer.quoteIdentifier name ++ likeOperator layer.connection false ++
          "'" ++ behind)) ∧
      literal? pair? '\'' behind.toList =
        some (written, (" escape " ++ declared ++ ") ").toList) ∧
      character? declared = some m.escape ∧
      Reads (metacharacters m.escape) written sqlItems ∧
      ((∀ text : String, Fits sqlItems text.toList ↔ Fits items text.toList) ↔
        ∀ c, .plain c ∈ tokens m.escape pattern.toList → Keeps m c) := by
  have hmeta : o.metacharacters? = some m := LikeOptions.metacharacters?_eq_some_iff.2 ho
  obtain ⟨declared, hclause, hcharacter⟩ := exists_escapeClause hconnection m.escape
  refine ⟨_,
    String.ofList (patternChars m pattern.toList) ++ "'" ++ (" escape " ++ declared ++ ") "),
    written m pattern.toList, declared, _, Like.reads_items m _, ?_, ?_, hcharacter,
    Like.reads_items _ _, ?_, ?_⟩
  · rw [Dialect.compile_eq_ok_some_iff,
      Language.compile_of_test? _ (Predicate.test?_like hmeta name pattern ignoreCase)]
    change like layer name pattern m o.ignoreCase = _
    rw [like, if_neg hescape, hclause, hcase]
    simp only [String.append_assoc]
  · have hblank : (" escape " ++ declared ++ ") ").toList.head? = some ' ' := by simp
    rw [String.toList_append, String.toList_append, String.toList_ofList, List.append_assoc]
    refine (decodes_patternChars hm hescape hbackslash).closed fun d hd => ?_
    cases hblank.symm.trans hd
    rfl
  · intro h c hc
    refine keeps_of_same_texts hm hlone (fun text => ?_) hc
    simpa using h (String.ofList text)
  · intro h text
    rw [items_written_of_keeps hm hlone h]

/-- A percent sign that is no metacharacter is a wildcard for the database. -/
theorem like_same_texts_iff_percent :
    LikeOptions.Declares ⟨"*", "#", "!", false⟩ ⟨'*', '#', '!'⟩ ∧
      Metacharacters.Distinct ⟨'*', '#', '!'⟩ ∧ '\\' ∉ "100%".toList ∧
      .loneEscape ∉ tokens '!' "100%".toList ∧
      Dialect.sql.compile (LayerSchema.toLayer { name := "roads", connection := .oracleSpatial })
          Engine.none (.comparison .like (.property "NAME") (.literal (some "100%") false)
            (some ⟨"*", "#", "!", false⟩)) =
        .ok (some " (\"NAME\" like '100%' escape '!') ") ∧
      ∃ items sqlItems, Reads ⟨'*', '#', '!'⟩ "100%".toList items ∧
        Reads (metacharacters '!') "100%".toList sqlItems ∧
        ¬∀ text : String, Fits sqlItems text.toList ↔ Fits items text.toList := by
  have ho : LikeOptions.Declares ⟨"*", "#", "!", false⟩ ⟨'*', '#', '!'⟩ := ⟨rfl, rfl, rfl⟩
  have hm : Metacharacters.Distinct ⟨'*', '#', '!'⟩ := ⟨by decide, by decide, by decide⟩
  obtain ⟨items, behind, written, declared, sqlItems, hitems, hcompile, hliteral, -, hsql, hsame⟩ :=
    @like_same_texts_iff ⟨'*', '#', '!'⟩
      (LayerSchema.toLayer { name := "roads", connection := .oracleSpatial }) _ "100%"
      (by decide) ho hm rfl (by decide) (by decide) (by decide) Engine.none "NAME" false
  have hbehind : behind = "100%' escape '!') " := by
    have htext : " (\"NAME\" like '" ++ "100%' escape '!') " = " (\"NAME\" like '" ++ behind :=
      Option.some.inj (Except.ok.inj hcompile)
    exact ((String.append_right_inj _).1 htext).symm
  have hwritten : written = "100%".toList := by
    subst hbehind
    exact (congrArg Prod.fst (Option.some.inj hliteral)).symm
  refine ⟨ho, hm, by decide, by decide, rfl, items, sqlItems, hitems, hwritten ▸ hsql, fun h => ?_⟩
  exact absurd (hsame.1 h '%' (by decide)) (by decide)

end Sql

end FilterEncoding
