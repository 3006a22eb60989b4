import FilterEncoding.Proofs.FilterParameter.Documents

/-!
# When documents are found

A scan of a parameter passes through a document, or stops in it at a parenthesis that looks like its
end.  Documents are found in a parameter when the scan passes through each of them and is outside of
all elements behind it.

* `FilterParameter.Place.across?` — the place behind a text.
* `FilterParameter.parameter` — the parameter of documents.
* `FilterParameter.documents_parameter_iff` — when its documents are found.
-/

namespace FilterEncoding.FilterParameter

namespace Place

/-- The place behind a text that is followed by `next`; nothing if the document ends in it. -/
def across? (p : Place) (next : Option Char) : List Char → Option Place
  | [] => some p
  | c :: cs =>
      if c = ')' && p.isOutside then none
      else (p.step c (cs.head?.or next)).across? next cs

/-- The place behind documents in parentheses; nothing if one of them is not found. -/
def acrossAll? (p : Place) : List (List Char) → Option Place
  | [] => some p
  | d :: ds => ((p.across? (some ')') d).filter isOutside).bind (·.acrossAll? ds)

theorem across?_append (p : Place) (next : Option Char) (cs ds : List Char) :
    p.across? next (cs ++ ds) =
      (p.across? (ds.head?.or next) cs).bind (·.across? next ds) := by
  induction cs generalizing p with
  | nil => rfl
  | cons c cs ih =>
      rw [List.cons_append, across?, across?]
      split
      · rfl
      · rw [ih, List.head?_append, Option.or_assoc]

theorem acrossAll?_append (p : Place) (ds es : List (List Char)) :
    p.acrossAll? (ds ++ es) = (p.acrossAll? ds).bind (·.acrossAll? es) := by
  induction ds generalizing p with
  | nil => rfl
  | cons d ds ih =>
      rw [List.cons_append, acrossAll?, acrossAll?, Option.bind_assoc]
      exact Option.bind_congr fun q _ => ih q

/-- A parenthesis outside of all elements opens a document. -/
theorem step_open {p : Place} (h : p.isOutside = true) (next : Option Char) :
    p.step '(' next = p := by
  have hquote : p.quote = none := by
    rw [isOutside, Bool.and_eq_true] at h
    exact Option.isNone_iff_eq_none.1 h.1
  simp [step, hquote]

end Place

variable {p q : Place}

theorem crosses_of_across? {cs behind : List Char} (h : p.across? behind.head? cs = some q) :
    Crosses p cs behind q := by
  induction cs generalizing p with
  | nil =>
      cases h
      exact .nil
  | cons c cs ih =>
      rw [Place.across?] at h
      split at h
      · cases h
      · next hend =>
        refine .cons (by simpa using hend) (ih ?_)
        rwa [List.head?_append]

/-- Where a scan does not pass through a text, the document ends before the text does. -/
theorem exists_documentsFrom_of_across?_eq_none {cs behind : List Char}
    (h : p.across? behind.head? cs = none) (before : List Char) :
    ∃ front rest ds, cs = front ++ ')' :: rest ∧
      documentsFrom p before (cs ++ behind) = (before.reverse ++ front).tail :: ds := by
  induction cs generalizing p before with
  | nil => cases h
  | cons c cs ih =>
      rw [Place.across?] at h
      split at h
      · next hend =>
        obtain ⟨rfl, -⟩ : c = ')' ∧ p.isOutside = true := by simpa using hend
        rw [List.cons_append, documentsFrom, if_pos hend]
        exact ⟨[], cs, _, rfl, by rw [List.append_nil]⟩
      · next hend =>
        rw [← List.head?_append] at h
        obtain ⟨front, rest, ds, rfl, hfrom⟩ := ih h (c :: before)
        refine ⟨c :: front, rest, ds, rfl, ?_⟩
        rw [List.cons_append, documentsFrom, if_neg hend, hfrom, List.reverse_cons,
          List.append_assoc, List.singleton_append]

/-- A document holds all that was read of it, except its parenthesis. -/
theorem length_le_of_documentsFrom {before cs d : List Char} {ds : List (List Char)}
    (h : documentsFrom p before cs = d :: ds) : before.length ≤ d.length + 1 := by
  induction cs generalizing p before with
  | nil => cases h
  | cons c cs ih =>
      rw [documentsFrom] at h
      split at h
      · obtain ⟨rfl, -⟩ := List.cons_eq_cons.1 h
        rw [List.length_tail, List.length_reverse]
        omega
      · have hlength := ih h
        rw [List.length_cons] at hlength
        omega

/-- Documents in parentheses. -/
def parameterChars (ds : List (List Char)) : List Char :=
  ds.flatMap fun d => '(' :: (d ++ [')'])

theorem documentsFrom_parameterChars_cons (hp : p.isOutside = true) (d : List Char)
    (ds : List (List Char)) :
    documentsFrom p [] (parameterChars (d :: ds)) =
      documentsFrom p ['('] (d ++ ')' :: parameterChars ds) := by
  have hchars : parameterChars (d :: ds) = '(' :: (d ++ ')' :: parameterChars ds) := by
    simp [parameterChars]
  rw [hchars, documentsFrom, p.step_open hp]
  rfl

/-- Behind the first document, the next ones are looked for. -/
theorem documentsFrom_close (hq : q.isOutside = true) (before : List Char)
    (ds : List (List Char)) :
    documentsFrom q before (')' :: parameterChars ds) =
      before.reverse.tail :: documentsFrom q [] (parameterChars ds) := by
  rw [documentsFrom, hq]
  cases ds with
  | nil => rfl
  | cons d ds => rfl

theorem documentsFrom_parameterChars_iff (hp : p.isOutside = true) (ds : List (List Char)) :
    documentsFrom p [] (parameterChars ds) = ds ↔ (p.acrossAll? ds).isSome = true := by
  induction ds generalizing p with
  | nil => exact iff_of_true rfl rfl
  | cons d ds ih =>
      rw [documentsFrom_parameterChars_cons hp, Place.acrossAll?]
      rcases hacross : p.across? (some ')') d with _ | q
      · -- The document that is found ends too early.
        refine iff_of_false (fun hfound => ?_) Bool.false_ne_true
        have hnone : p.across? (')' :: parameterChars ds).head? d = none := hacross
        obtain ⟨front, rest, tail, rfl, hfrom⟩ :=
          exists_documentsFrom_of_across?_eq_none hnone ['(']
        rw [hfrom] at hfound
        have hlength := congrArg List.length (List.cons_eq_cons.1 hfound).1
        simp at hlength
      · have hcrosses : Crosses p d (')' :: parameterChars ds) q := crosses_of_across? hacross
        rw [hcrosses]
        by_cases hq : q.isOutside = true
        · rw [documentsFrom_close hq, Option.filter_some, if_pos hq, Option.bind_some, ← ih hq]
          simp
        · -- The document that is found does not end where it should.
          refine iff_of_false (fun hfound => ?_) (by simp [hq])
          rw [documentsFrom, if_neg (by simpa using hq)] at hfound
          have hlength := length_le_of_documentsFrom hfound
          simp only [List.length_cons, List.length_append, List.length_reverse,
            List.length_nil] at hlength
          omega

/-- The parameter of documents: each of them in parentheses. -/
def parameter (ds : List String) : String :=
  String.join (ds.map fun d => "(" ++ d ++ ")")

theorem toList_parameter (ds : List String) :
    (parameter ds).toList = parameterChars (ds.map String.toList) := by
  induction ds with
  | nil => rfl
  | cons d ds ih =>
      unfold parameter parameterChars at ih ⊢
      simp at ih ⊢
      simp [ih]

theorem documents_parameter_iff (ds : List String) :
    documents (parameter ds) = ds ↔
      (Place.outside.acrossAll? (ds.map String.toList)).isSome = true := by
  rw [← documentsFrom_parameterChars_iff rfl, documents, toList_parameter]
  cases ds with
  | nil => exact iff_of_true rfl rfl
  | cons d ds =>
      have hhead : (parameterChars ((d :: ds).map String.toList)).head? = some '(' := rfl
      have htexts (found : List (List Char)) :
          found.map String.ofList = d :: ds ↔ found = (d :: ds).map String.toList :=
        ⟨fun h => by simp [← h], fun h => by simp [h]⟩
      rw [if_pos hhead, htexts]

end FilterEncoding.FilterParameter
