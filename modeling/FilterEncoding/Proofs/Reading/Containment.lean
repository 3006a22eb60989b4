import FilterEncoding.Proofs.Expression.Draft

/-!
# Requests contained in tokens

A text contains a request if it is read to its end, its parentheses outside tokens balance, and
nothing the request supplies stands outside tokens or delimits one, numbers apart.

A draft fails to contain a request only where the body of a token closes the token early.
`contained_marked_iff` says that this is the only way, so that it is enough to look at the bodies
one by one; `Contains` collects what is known about a draft while it is put together.
-/

namespace FilterEncoding.Reading

/-- What may stand inside tokens only. -/
def Origin.Confined : Origin → Prop
  | dialect => False
  | value v => Number.isNumeric v = false
  | name _ | pattern _ | escape _ => True

/-- Something that may stand inside tokens only does not. -/
def Lexeme.Exposes : Lexeme Origin → Prop
  | bare c => c.2.Confined
  | token _ opening _ closing => opening.2.Confined ∨ closing.2.Confined

/-- The text ends outside tokens, its parentheses outside tokens balance, and what may stand inside
tokens only neither stands outside them nor delimits one. -/
def Contained (quotes : List Quote) (text : List (Char × Origin)) : Prop :=
  ∃ ls, Reads quotes text ls ∧ Nested (outer ls) ∧ ∀ l ∈ ls, ¬l.Exposes

/-- A body in which a character of a request closes the token. -/
def ClosesEarly (quote : Quote) (origin : Origin) (body : String) : Prop :=
  origin.Confined ∧ ∃ before after, body.toList = before ++ quote.closing :: after ∧
    Sealed quote (before.map fun c => (c, origin))

namespace Fragment

/-- The body of a token stays inside the token. -/
def Tight : Fragment → Prop
  | bare _ _ => True
  | token quote origin body => Sealed quote (mark origin body)

/-- A fragment is legible if its body stays inside the token, and otherwise the body closes the
token early. -/
def Drafted (quotes : List Quote) : Fragment → Prop
  | bare origin text => OpensNone quotes text ∧ ¬origin.Confined
  | token quote origin body =>
      quotes.find? (·.opening == quote.opening) = some quote ∧ quote.guard ≠ .doubled ∧
        (Sealed quote (mark origin body) ∨ ClosesEarly quote origin body)

end Fragment

variable {quotes : List Quote}

namespace Fragment.Drafted

variable {f : Fragment}

theorem legible (h : f.Drafted quotes) (htight : f.Tight) : f.Legible quotes := by
  cases f with
  | bare origin text => exact h.1
  | token quote origin body => exact ⟨h.1, fun hguard => absurd hguard h.2.1, htight⟩

/-- Only the body of a token can expose something. -/
theorem not_exposes (h : f.Drafted quotes) : ∀ l ∈ f.lexemes, ¬l.Exposes := by
  intro l hl
  cases f with
  | bare origin text =>
      obtain ⟨c, hc, rfl⟩ := List.mem_map.1 hl
      show ¬c.2.Confined
      rw [snd_of_mem_mark hc]
      exact h.2
  | token quote origin body =>
      cases List.mem_singleton.1 hl
      rintro (hopening | hclosing)
      · exact hopening
      · exact hclosing

end Fragment.Drafted

theorem separated_of_drafted {fs : List Fragment} (h : ∀ f ∈ fs, f.Drafted quotes) :
    Separated fs := by
  induction fs with
  | nil => trivial
  | cons f fs ih =>
      have hrest := ih fun g hg => h g (List.mem_cons_of_mem f hg)
      have hf := h f List.mem_cons_self
      cases f with
      | bare origin text => exact hrest
      | token quote origin body => exact ⟨fun hguard => absurd hguard hf.2.1, hrest⟩

/-! ## Tokens that are closed early -/

/-- The body of a token up to the character that closes it early. -/
theorem ClosesEarly.mark_eq {quote : Quote} {origin : Origin} {body : String}
    (h : ClosesEarly quote origin body) : ∃ before after,
      mark origin body = before ++ (quote.closing, origin) :: after ∧ Sealed quote before := by
  obtain ⟨-, before, after, hbody, hsealed⟩ := h
  refine ⟨before.map fun c => (c, origin), after.map fun c => (c, origin), ?_, hsealed⟩
  rw [mark, hbody, List.map_append, List.map_cons]

/-- A token whose body closes it early exposes the character that closes it. -/
theorem ClosesEarly.exists_exposes {quote : Quote} {origin : Origin} {body : String}
    (h : ClosesEarly quote origin body)
    (hopening : quotes.find? (·.opening == quote.opening) = some quote)
    (hguard : quote.guard ≠ .doubled) (rest : List (Char × Origin)) :
    ∃ l ∈ (run quotes .outside ((Fragment.token quote origin body).marked ++ rest)).2,
      l.Exposes := by
  obtain ⟨before, after, hmark, hsealed⟩ := h.mark_eq
  have htoken : Reads quotes
      ((quote.opening, Origin.dialect) :: (before ++ [(quote.closing, origin)]))
      [.token quote (quote.opening, .dialect) before (quote.closing, origin)] :=
    reads_token hopening hsealed hguard rfl
  have hsplit : (Fragment.token quote origin body).marked ++ rest =
      (quote.opening, Origin.dialect) :: (before ++ [(quote.closing, origin)]) ++
        (after ++ [(quote.closing, .dialect)] ++ rest) := by
    simp [Fragment.marked, hmark]
  rw [hsplit, run_append, htoken]
  exact ⟨_, List.mem_cons_self, .inr h.1⟩

theorem ClosesEarly.not_sealed {quote : Quote} {origin : Origin} {body : String}
    (h : ClosesEarly quote origin body) (hguard : quote.guard ≠ .doubled) :
    ¬Sealed quote (mark origin body) := by
  intro hbody
  obtain ⟨before, after, hmark, hsealed⟩ := h.mark_eq
  -- Behind the closing character the reader is outside tokens, whatever comes next.
  have hrun := hbody [] (quote.opening, .dialect) []
  rw [hmark, run_append, hsealed, run_cons, step, if_pos rfl, if_neg hguard] at hrun
  cases (Prod.mk.inj hrun).2

/-- Where nothing is exposed no body closes its token early. -/
theorem forall_tight_of_hidden {fs : List Fragment} (h : ∀ f ∈ fs, f.Drafted quotes)
    (hhidden : ∀ l ∈ (run quotes .outside (marked fs)).2, ¬l.Exposes) : ∀ f ∈ fs, f.Tight := by
  induction fs with
  | nil => exact List.forall_mem_nil _
  | cons f fs ih =>
      have hdrafted := h f List.mem_cons_self
      have hrest : ∀ g ∈ fs, g.Drafted quotes := fun g hg => h g (List.mem_cons_of_mem f hg)
      have hmarked : marked (f :: fs) = f.marked ++ marked fs := List.flatMap_cons
      rw [hmarked] at hhidden
      -- If the first body closed its token early, the character that closes it would be exposed
      -- at once, whatever follows.
      have htight : f.Tight := by
        cases f with
        | bare origin text => trivial
        | token quote origin body =>
            obtain ⟨hopening, hguard, hsealed | hearly⟩ := hdrafted
            · exact hsealed
            · obtain ⟨l, hl, hexposes⟩ := hearly.exists_exposes hopening hguard (marked fs)
              exact absurd hexposes (hhidden l hl)
      have hreads : Reads quotes f.marked f.lexemes := by
        have hone := List.forall_mem_singleton.2 hdrafted
        have hread := reads_lexemes (List.forall_mem_singleton.2 (hdrafted.legible htight))
          (separated_of_drafted hone)
        rwa [marked, lexemes, List.flatMap_singleton, List.flatMap_singleton] at hread
      -- Otherwise the reader is outside tokens behind the first fragment, as it was before.
      refine List.forall_mem_cons.2 ⟨htight, ih hrest fun l hl => hhidden l ?_⟩
      rw [run_append, hreads]
      exact List.mem_append_right _ hl

theorem contained_marked_iff {fs : List Fragment} (h : ∀ f ∈ fs, f.Drafted quotes)
    (hnested : Nested (outside fs)) : Contained quotes (marked fs) ↔ ∀ f ∈ fs, f.Tight := by
  constructor
  · rintro ⟨ls, hreads, -, hhidden⟩
    refine forall_tight_of_hidden h ?_
    rw [hreads]
    exact hhidden
  · intro htight
    refine ⟨lexemes fs, ?_, ?_, ?_⟩
    · exact reads_lexemes (fun f hf => (h f hf).legible (htight f hf)) (separated_of_drafted h)
    · rw [outer_lexemes]
      exact hnested
    · intro l hl
      obtain ⟨f, hf, hlf⟩ := List.mem_flatMap.1 hl
      exact (h f hf).not_exposes l hlf

/-! ## Putting drafts together -/

/-- A draft that contains a request exactly if a condition holds. -/
structure Contains (quotes : List Quote) (safe : Prop) (fs : List Fragment) : Prop where
  drafted : ∀ f ∈ fs, f.Drafted quotes
  nested : Nested (outside fs)
  forall_tight_iff : (∀ f ∈ fs, f.Tight) ↔ safe

namespace Contains

variable {fs gs : List Fragment} {a b : Prop}

theorem contained_iff (h : Contains quotes a fs) : Contained quotes (marked fs) ↔ a :=
  (contained_marked_iff h.drafted h.nested).trans h.forall_tight_iff

theorem congr (h : Contains quotes a fs) (hab : a ↔ b) : Contains quotes b fs :=
  ⟨h.drafted, h.nested, h.forall_tight_iff.trans hab⟩

theorem append (hf : Contains quotes a fs) (hg : Contains quotes b gs) :
    Contains quotes (a ∧ b) (fs ++ gs) := by
  refine ⟨List.forall_mem_append.2 ⟨hf.drafted, hg.drafted⟩, ?_, ?_⟩
  · rw [outside_append]
    exact hf.nested.append hg.nested
  · rw [List.forall_mem_append, hf.forall_tight_iff, hg.forall_tight_iff]

/-- A text of the dialect or a number. -/
theorem bare {origin : Origin} {text : String} (h : Plain quotes text)
    (horigin : ¬origin.Confined) : Contains quotes True [.bare origin text] := by
  refine ⟨List.forall_mem_singleton.2 ⟨h.1, horigin⟩, ?_, ?_⟩
  · exact h.2.nested.append Nested.nil
  · exact ⟨fun _ => trivial, fun _ => List.forall_mem_singleton.2 trivial⟩

theorem words {text : String} (h : Plain quotes text) : Contains quotes True [words text] :=
  bare h id

/-- A token that is closed early exactly if a condition fails. -/
theorem token {quote : Quote} {origin : Origin} {body : String} {safe : Prop}
    (hopening : quotes.find? (·.opening == quote.opening) = some quote)
    (hguard : quote.guard ≠ .doubled) (hsealed : safe → Sealed quote (mark origin body))
    (hearly : ¬safe → ClosesEarly quote origin body) :
    Contains quotes safe [.token quote origin body] := by
  refine ⟨List.forall_mem_singleton.2 ⟨hopening, hguard, ?_⟩, Nested.nil, ?_⟩
  · by_cases hsafe : safe
    · exact .inl (hsealed hsafe)
    · exact .inr (hearly hsafe)
  · rw [List.forall_mem_singleton]
    constructor
    · intro htight
      apply Classical.byContradiction
      intro hsafe
      exact (hearly hsafe).not_sealed hguard htight
    · exact hsealed

/-- A token that is not closed early. -/
theorem sealedToken {quote : Quote} {origin : Origin} {body : String}
    (hopening : quotes.find? (·.opening == quote.opening) = some quote)
    (hguard : quote.guard ≠ .doubled) (hsealed : Sealed quote (mark origin body)) :
    Contains quotes True [.token quote origin body] :=
  token hopening hguard (fun _ => hsealed) fun h => absurd trivial h

/-- A fragment that cannot go wrong in front of a draft. -/
theorem cons {f : Fragment} (hf : Contains quotes True [f]) (hfs : Contains quotes a fs) :
    Contains quotes a (f :: fs) :=
  (hf.append hfs).congr (Iff.of_eq (true_and a))

/-- Parentheses around a draft. -/
theorem group {before after : String} (hf : Contains quotes a fs) (hbefore : Plain quotes before)
    (hafter : Plain quotes after)
    (hparens : OpensNone quotes "(" ∧ OpensNone quotes ")") :
    Contains quotes a (group before fs after) := by
  have hopen : (Reading.words (before ++ "(")).Drafted quotes := ⟨hbefore.1.append hparens.1, id⟩
  have hclose : (Reading.words (")" ++ after)).Drafted quotes := ⟨hparens.2.append hafter.1, id⟩
  refine ⟨?_, ?_, ?_⟩
  · exact List.forall_mem_cons.2 ⟨hopen, List.forall_mem_append.2
      ⟨hf.drafted, List.forall_mem_singleton.2 hclose⟩⟩
  · rw [outside_group]
    exact Enclosed.nested ⟨_, _, _, rfl, hbefore.2, hf.nested, hafter.2⟩
  · rw [Reading.group, List.forall_mem_cons, List.forall_mem_append, List.forall_mem_singleton,
      hf.forall_tight_iff]
    exact ⟨fun h => h.2.1, fun h => ⟨trivial, h, trivial⟩⟩

/-- Parentheses with nothing beside them. -/
theorem parenthesized (hf : Contains quotes a fs)
    (hparens : OpensNone quotes "(" ∧ OpensNone quotes ")") :
    Contains quotes a (Reading.group "" fs "") :=
  hf.group plain_empty plain_empty hparens

theorem alternatives {drafts : List (List Fragment)} (hor : Plain quotes " OR ")
    (h : ∀ fs ∈ drafts, Contains quotes True fs) :
    Contains quotes True (alternatives drafts) := by
  fun_induction Reading.alternatives drafts with
  | case1 =>
      have htight : (∀ f ∈ ([] : List Fragment), f.Tight) ↔ True :=
        ⟨fun _ => trivial, fun _ => List.forall_mem_nil _⟩
      exact ⟨List.forall_mem_nil _, Nested.nil, htight⟩
  | case2 fs => exact h fs List.mem_cons_self
  | case3 fs gs rest ih =>
      have hrest := ih fun hs hhs => h hs (List.mem_cons_of_mem fs hhs)
      exact ((h fs List.mem_cons_self).append ((words hor).cons hrest)).congr and_self_iff

end Contains

/-! ## Expressions -/

/-- A language whose connectives keep a request contained, and whose tests do for the clean ones
exactly if they are safe. -/
structure Confines (quotes : List Quote) (clean safe : Test → Prop)
    (language : Language (List Fragment)) : Prop where
  test : ∀ {t fs}, clean t → language.test t = .ok fs → Contains quotes (safe t) fs
  negate : ∀ {a fs}, Contains quotes a fs → Contains quotes a (language.negate fs)
  join : ∀ {a b fs gs} (op : Connective), Contains quotes a fs → Contains quotes b gs →
    Contains quotes (a ∧ b) (language.join op fs gs)
  besideBox : ∀ {a fs}, Contains quotes a fs → Contains quotes a (language.besideBox fs)
  /-- Spatial tests are safe, so that it does not matter if a bounding box is left out. -/
  inBox : ∀ rectangle crs, safe (.inBox rectangle crs)
  toShape : ∀ op shape crs distance, safe (.toShape op shape crs distance)

theorem Confines.safe_of_isBox {clean safe : Test → Prop} {language : Language (List Fragment)}
    (h : Confines quotes clean safe language) {box : Predicate} (hbox : box.isBox = true) :
    ∀ t ∈ box.tests, safe t := by
  intro t ht
  rcases Predicate.spatial_of_mem_tests hbox ht with
    ⟨rectangle, crs, rfl⟩ | ⟨op, shape, crs, distance, rfl⟩
  · exact h.inBox rectangle crs
  · exact h.toShape op shape crs distance

/-- An expression contains a request exactly if all its tests do. -/
theorem Confines.compile {clean safe : Test → Prop} {language : Language (List Fragment)}
    (h : Confines quotes clean safe language) {p : Predicate} {fs : List Fragment}
    (hfs : language.compile p = .ok fs) (hclean : ∀ t ∈ p.tests, clean t) :
    Contains quotes (∀ t ∈ p.tests, safe t) fs := by
  refine Language.compile_induction language
    (fun p fs => (∀ t ∈ p.tests, clean t) → Contains quotes (∀ t ∈ p.tests, safe t) fs)
    ?_ ?_ ?_ ?_ ?_ ?_ hfs hclean
  · intro leaf t fs hleaf ht hclean
    rw [Predicate.tests_of_test? hleaf] at hclean ⊢
    exact (h.test (List.forall_mem_singleton.1 hclean) ht).congr List.forall_mem_singleton.symm
  · exact fun operand fs hoperand hclean => h.negate (hoperand hclean)
  · exact fun left right fs hleft hclean => h.negate (hleft hclean)
  · intro op left right x y hop hx hy hclean
    rw [Predicate.tests_binary hop] at hclean ⊢
    have hboth := List.forall_mem_append.1 hclean
    exact (h.join op (hx hboth.1) (hy hboth.2)).congr List.forall_mem_append.symm
  · -- A box that is left out leaves out a safe test.
    intro box partner x hbox hx hclean
    rw [Predicate.tests_binary (by decide)] at hclean ⊢
    refine (h.besideBox (hx (List.forall_mem_append.1 hclean).2)).congr ?_
    rw [List.forall_mem_append]
    exact ⟨fun hpartner => ⟨h.safe_of_isBox hbox, hpartner⟩, fun hboth => hboth.2⟩
  · intro partner box x hbox hx hclean
    rw [Predicate.tests_binary (by decide)] at hclean ⊢
    refine (h.besideBox (hx (List.forall_mem_append.1 hclean).1)).congr ?_
    rw [List.forall_mem_append]
    exact ⟨fun hpartner => ⟨hpartner, h.safe_of_isBox hbox⟩, fun hboth => hboth.1⟩

end FilterEncoding.Reading
