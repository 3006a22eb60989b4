/-!
# Letter case

Keywords, attribute names and CRS references are compared without regard to the case of the
letters `A` to `Z`.  Letters beyond ASCII are never folded here.
-/

namespace FilterEncoding.Chars

/-- Replace `A` to `Z` by `a` to `z`. -/
def lower (cs : List Char) : List Char :=
  cs.map Char.toLower

/-- Equality up to the case of ASCII letters. -/
def same (as bs : List Char) : Bool :=
  lower as == lower bs

theorem same_iff (as bs : List Char) : same as bs = true ↔ lower as = lower bs := by
  simp [same]

@[simp]
theorem same_refl (cs : List Char) : same cs cs = true := by
  simp [same]

@[simp]
theorem length_lower (cs : List Char) : (lower cs).length = cs.length := by
  simp [lower]

/-- Between a capital letter and its small one there are 32 characters; all else stays as it is. -/
theorem toLower_cases (c : Char) :
    c.toLower = c ∨ (65 ≤ c.toNat ∧ c.toNat ≤ 90) ∧ c.toLower.toNat = c.toNat + 32 := by
  unfold Char.toLower
  split
  · next h =>
    obtain ⟨hge, hle⟩ := h
    have hc : 65 ≤ c.toNat ∧ c.toNat ≤ 90 := ⟨hge, hle⟩
    refine .inr ⟨hc, ?_⟩
    show (c.val + ('a'.val - 'A'.val)).toNat = c.toNat + 32
    rw [UInt32.toNat_add]
    change (c.toNat + 32) % 2 ^ 32 = _
    omega
  · exact .inl rfl

/-- Below the letters, the same characters occur. -/
theorem mem_lower_iff {d : Char} (hd : d.toNat < 65) {cs : List Char} : d ∈ lower cs ↔ d ∈ cs := by
  have hlower : ∀ c : Char, c.toLower = d ↔ c = d := by
    intro c
    rcases toLower_cases c with h | ⟨hbounds, h⟩
    · rw [h]
    · refine iff_of_false (fun heq => ?_) (fun heq => ?_)
      · rw [heq] at h
        omega
      · rw [heq] at hbounds
        omega
  simp [lower, hlower]

end FilterEncoding.Chars
