import FilterEncoding.FeatureIdRequest
import FilterEncoding.Proofs.Xml.Reading

/-!
# Escaped values

A value that is escaped for a document has no quote and no bracket, and is read back as the value.

* `Xml.IsKept` — characters that are read from an attribute value as they were.
* `FeatureIdGroup.attributeValue?_escaped` — an escaped value is read back.
-/

namespace FilterEncoding

open Xml (Datum attributeValue? attributeValueOf data? referent?)

/-- Whether a document holds a character, and an attribute value does not make it a space. -/
structure Xml.IsKept (c : Char) : Prop where
  allowed : Xml.isAllowed c = true
  notBreak : c ∉ ['\t', '\n', '\r']

instance (c : Char) : Decidable (Xml.IsKept c) :=
  decidable_of_iff (Xml.isAllowed c = true ∧ c ∉ ['\t', '\n', '\r'])
    ⟨fun h => ⟨h.1, h.2⟩, fun h => ⟨h.allowed, h.notBreak⟩⟩

/-- The characters of a text are tried one after another, not all characters there are. -/
instance (cs : List Char) : Decidable (∀ c ∈ cs, Xml.IsKept c) :=
  List.decidableBAll _ cs

namespace FeatureIdGroup

/-- Characters that end a value or a tag. -/
def delimiters : List Char := ['<', '>', '"', '\'']

/-- A character is written as a reference to an entity, or as itself. -/
theorem escapedChar_cases (c : Char) :
    (∃ name, (name, c) ∈ Xml.predefinedEntities ∧ escapedChar c = '&' :: (name ++ [';'])) ∨
      (escapedChar c = [c] ∧ c ≠ '&' ∧ c ∉ delimiters) := by
  unfold escapedChar
  split
  · next h => exact .inl ⟨"amp".toList, by simp [Xml.predefinedEntities, h], by simp⟩
  split
  · next h => exact .inl ⟨"lt".toList, by simp [Xml.predefinedEntities, h], by simp⟩
  split
  · next h => exact .inl ⟨"gt".toList, by simp [Xml.predefinedEntities, h], by simp⟩
  split
  · next h => exact .inl ⟨"quot".toList, by simp [Xml.predefinedEntities, h], by simp⟩
  split
  · next h => exact .inl ⟨"apos".toList, by simp [Xml.predefinedEntities, h], by simp⟩
  · next hamp hlt hgt hquot hapos =>
    exact .inr ⟨rfl, hamp, by simp [delimiters, hlt, hgt, hquot, hapos]⟩

/-- The entities are referred to by their names, which hold nothing but letters. -/
theorem forall_predefinedEntities : ∀ e ∈ Xml.predefinedEntities,
    referent? e.1 = some e.2 ∧ ∀ d ∈ e.1, d ≠ ';' ∧ d ∉ delimiters ∧ Xml.isAllowed d = true := by
  have hnames : ∀ e ∈ Xml.predefinedEntities, referent? e.1 = some e.2 ∧
      e.1.all (fun d => d != ';' && (!delimiters.contains d && Xml.isAllowed d)) = true := by
    decide +kernel
  intro e he
  obtain ⟨hreferent, hname⟩ := hnames e he
  exact ⟨hreferent, fun d hd => by simpa using List.all_eq_true.1 hname d hd⟩

/-- What holds of the characters of an escaped value. -/
theorem forall_mem_escaped {P : Char → Prop} {cs : List Char} (hamp : P '&') (hend : P ';')
    (hname : ∀ d, d ∉ delimiters → Xml.isAllowed d = true → P d)
    (hself : ∀ c ∈ cs, c ∉ delimiters → P c) : ∀ d ∈ cs.flatMap escapedChar, P d := by
  intro d hd
  obtain ⟨c, hc, hd⟩ := List.mem_flatMap.1 hd
  rcases escapedChar_cases c with ⟨name, hentity, hwritten⟩ | ⟨hwritten, -, hc'⟩
  · rw [hwritten, List.mem_cons, List.mem_append, List.mem_singleton] at hd
    rcases hd with rfl | hd | rfl
    · exact hamp
    · obtain ⟨-, hdelimiter, hallowed⟩ := (forall_predefinedEntities _ hentity).2 d hd
      exact hname d hdelimiter hallowed
    · exact hend
  · rw [hwritten, List.mem_singleton] at hd
    exact hd ▸ hself c hc hc'

/-- No delimiter is left in an escaped value. -/
theorem notMem_escaped {d : Char} (hd : d ∈ delimiters) (cs : List Char) :
    d ∉ cs.flatMap escapedChar := by
  have hnone : ∀ c ∈ cs.flatMap escapedChar, c ∉ delimiters :=
    forall_mem_escaped (by decide) (by decide) (fun _ hdelimiter _ => hdelimiter)
      fun _ _ hdelimiter => hdelimiter
  exact fun hmem => hnone d hmem hd

theorem isAllowed_escaped {cs : List Char} (h : ∀ c ∈ cs, Xml.isAllowed c = true) :
    ∀ d ∈ cs.flatMap escapedChar, Xml.isAllowed d = true :=
  forall_mem_escaped (by decide) (by decide) (fun _ _ hallowed => hallowed) fun c hc _ => h c hc

/-- The characters of an escaped value. -/
theorem exists_data?_escaped {cs : List Char} (h : ∀ c ∈ cs, Xml.IsKept c) :
    ∃ data, data? (cs.flatMap escapedChar) = some data ∧ attributeValueOf data = cs := by
  induction cs with
  | nil => exact ⟨[], by rw [List.flatMap_nil, data?], rfl⟩
  | cons c cs ih =>
      obtain ⟨hc, hcs⟩ := List.forall_mem_cons.1 h
      obtain ⟨data, hdata, hvalue⟩ := ih hcs
      rw [List.flatMap_cons]
      rcases escapedChar_cases c with ⟨name, hentity, hwritten⟩ | ⟨hwritten, hamp, -⟩
      · obtain ⟨hreferent, hname⟩ := forall_predefinedEntities _ hentity
        have hend : ';' ∉ name := fun hmem => (hname _ hmem).1 rfl
        have hcut := Chars.cutFirst_of_notMem hend (cs.flatMap escapedChar)
        refine ⟨.reference c :: data, ?_, by rw [attributeValueOf, hvalue]⟩
        rw [hwritten, List.cons_append, List.append_assoc, List.singleton_append,
          Xml.data?_reference hcut, hreferent, Option.bind_some, hdata, Option.map_some]
      · refine ⟨.literal c :: data, ?_, ?_⟩
        · rw [hwritten, List.singleton_append, Xml.data?_literal hamp, hdata, Option.map_some]
        · have hbreak := hc.notBreak
          simp only [List.mem_cons, List.not_mem_nil, or_false, not_or] at hbreak
          simp [attributeValueOf, hbreak, hvalue]

/-- An escaped value is read back. -/
theorem attributeValue?_escaped {cs : List Char} (h : ∀ c ∈ cs, Xml.IsKept c) :
    attributeValue? (cs.flatMap escapedChar) = some (String.ofList cs) := by
  obtain ⟨data, hdata, hvalue⟩ := exists_data?_escaped h
  have hbracket : (cs.flatMap escapedChar).contains '<' = false := by
    simpa using notMem_escaped (d := '<') (by decide) cs
  rw [attributeValue?, hbracket, if_neg Bool.false_ne_true, hdata, Option.map_some, hvalue]

end FeatureIdGroup

end FilterEncoding
