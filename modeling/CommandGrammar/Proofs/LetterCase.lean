import CommandGrammar.Text.LetterCase

/-!
# Characters without letter case

Small forms leave punctuation alone, and no other character has punctuation for its small form. So a
text and its small form hold the same punctuation (`mem_lower_iff`) and start with the same one
(`head?_lower_iff`), whatever becomes of the letters in between.
-/

namespace CommandGrammar.Text

/-- A character up to the grave accent, but neither a capital letter nor the null character. -/
def IsPlain (d : Char) : Prop := 0 < d.toNat ∧ d.toNat ≤ 0x60 ∧ d.toLower = d

instance (d : Char) : Decidable (IsPlain d) := inferInstanceAs (Decidable (_ ∧ _))

/-! ## One character -/

/-- Every small form beyond ASCII, that of the Kelvin sign included, lies behind the grave accent. -/
theorem lt_shift_of_mem_lowerRuns : ∀ r ∈ lowerRuns, 0x60 < (r.first : Int) + r.shift := by
  decide +kernel

theorem toLower_ascii : ∀ n < 0x80, (Char.ofNat n).toLower.toNat ≤ 0x60 →
    (Char.ofNat n).toLower = Char.ofNat n := by
  decide +kernel

theorem toLower_lt_ascii {c : Char} (h : c.toNat < 0x80) : c.toLower.toNat < 0x80 := by
  have hall : ∀ n < 0x80, (Char.ofNat n).toLower.toNat < 0x80 := by decide +kernel
  have hc := hall c.toNat h
  rwa [Char.ofNat_toNat] at hc

/-- A number that is no code point stands for the null character. -/
theorem toNat_ofNat_eq_or (n : Nat) : (Char.ofNat n).toNat = n ∨ (Char.ofNat n).toNat = 0 := by
  by_cases h : n.isValidChar
  · have hn : Char.ofNat n = Char.ofNatAux n h := dif_pos h
    exact Or.inl (by rw [hn]; rfl)
  · have hn : Char.ofNat n = { val := 0, valid := Or.inl (by decide) } := dif_neg h
    exact Or.inr (by rw [hn]; rfl)

theorem shiftBy_eq_or (runs : List CaseRun) (c : Char) :
    shiftBy runs c = c ∨ ∃ r ∈ runs, r.first ≤ c.toNat
      ∧ shiftBy runs c = Char.ofNat ((c.toNat : Int) + r.shift).toNat := by
  unfold shiftBy
  split
  · next r h =>
    have hcovers := List.find?_some h
    simp only [CaseRun.covers, Bool.and_eq_true, decide_eq_true_eq] at hcovers
    exact Or.inr ⟨r, List.mem_of_find?_eq_some h, hcovers.1.1, rfl⟩
  · exact Or.inl rfl

/-- No character has an empty small form. -/
theorem lowerChar_ne_nil (c : Char) : lowerChar c ≠ [] := by
  unfold lowerChar
  split
  · simp
  · split <;> simp

/-- **A plain character is the small form of itself alone.** -/
theorem mem_lowerChar_iff {c d : Char} (hd : IsPlain d) : d ∈ lowerChar c ↔ d = c := by
  obtain ⟨hpos, hle, hlower⟩ := hd
  unfold lowerChar
  split
  · next hc =>
    rw [List.mem_singleton]
    constructor
    · rintro rfl
      have h := toLower_ascii c.toNat hc
      rw [Char.ofNat_toNat] at h
      exact h hle
    · rintro rfl
      exact hlower.symm
  · next hc =>
    have hne : d ≠ c := by
      rintro rfl
      omega
    refine iff_of_false ?_ hne
    split
    · intro hm
      rcases List.mem_cons.mp hm with rfl | hm
      · exact absurd hle (by decide)
      · rw [List.mem_singleton.mp hm] at hle
        exact absurd hle (by decide)
    · intro hm
      have hshift := List.mem_singleton.mp hm
      rcases shiftBy_eq_or lowerRuns c with h | ⟨r, hr, hfirst, h⟩
      · exact hne (hshift.trans h)
      · have hlt := lt_shift_of_mem_lowerRuns r hr
        rw [h] at hshift
        rw [hshift] at hpos hle
        rcases toNat_ofNat_eq_or ((c.toNat : Int) + r.shift).toNat with hn | hn
        · omega
        · omega

/-- Behind other characters the small form of a text starts with that of its first character. -/
theorem lowerAfter_cons (b : Bool) (c : Char) (rest : List Char) : ∃ form b',
    lowerAfter b (c :: rest) = form ++ lowerAfter b' rest ∧ form ≠ []
      ∧ ∀ d, IsPlain d → (d ∈ form ↔ d = c) := by
  rw [lowerAfter]
  split
  · next hc =>
    refine ⟨_, _, rfl, by simp, fun d hd => ?_⟩
    have hle := hd.2.1
    -- Neither form of the small sigma is plain, and the capital one is not either.
    have hne : d ≠ c := by
      rintro rfl
      omega
    refine iff_of_false (fun hm => ?_) hne
    rw [List.mem_singleton.mp hm] at hle
    split at hle
    · exact absurd hle (by decide)
    · exact absurd hle (by decide)
  · exact ⟨_, _, rfl, lowerChar_ne_nil c, fun d hd => mem_lowerChar_iff hd⟩

/-! ## Texts -/

/-- **A text and its small form hold the same punctuation.** -/
theorem mem_lower_iff {d : Char} (hd : IsPlain d) (cs : List Char) : d ∈ lower cs ↔ d ∈ cs := by
  suffices h : ∀ b, d ∈ lowerAfter b cs ↔ d ∈ cs from h false
  induction cs with
  | nil => exact fun _ => Iff.rfl
  | cons c rest ih =>
    intro b
    obtain ⟨form, b', hform, -, hmem⟩ := lowerAfter_cons b c rest
    rw [hform, List.mem_append, List.mem_cons, hmem d hd, ih]

/-- **A text and its small form start with the same punctuation.** -/
theorem head?_lower_iff {d : Char} (hd : IsPlain d) (cs : List Char) :
    (lower cs).head? = some d ↔ cs.head? = some d := by
  cases cs with
  | nil => exact Iff.rfl
  | cons c rest =>
    constructor
    · intro h
      obtain ⟨form, b', hform, hne, hmem⟩ := lowerAfter_cons false c rest
      obtain ⟨e, tail, rfl⟩ := List.exists_cons_of_ne_nil hne
      rw [lower, hform] at h
      obtain rfl : e = d := Option.some.inj h
      rw [(hmem e hd).mp List.mem_cons_self]
      rfl
    · intro h
      obtain rfl : c = d := Option.some.inj h
      have hascii : c.toNat < 0x80 := by
        have := hd.2.1
        omega
      have hsigma : c.toNat ≠ 0x3A3 := by omega
      rw [lower, lowerAfter, if_neg hsigma, lowerChar, if_pos hascii, hd.2.2]
      rfl

/-- A text whose small form is ASCII is put into small form character by character: neither a sigma, nor a
character that becomes two, leads there. -/
theorem lowerAfter_take {b : Bool} {cs : List Char} (h : ∀ d ∈ lowerAfter b cs, d.toNat < 0x80) (n : Nat) :
    lowerAfter b (cs.take n) = (lowerAfter b cs).take n := by
  induction cs generalizing b n with
  | nil => simp [lowerAfter]
  | cons c rest ih =>
    have hsigma : c.toNat ≠ 0x3A3 := by
      intro hc
      rw [lowerAfter, if_pos hc] at h
      have hd := h _ List.mem_cons_self
      split at hd <;> exact absurd hd (by decide)
    have hform : ∃ d, lowerChar c = [d] := by
      rw [lowerAfter, if_neg hsigma] at h
      unfold lowerChar at h ⊢
      split
      · exact ⟨_, rfl⟩
      · next hc =>
        split
        · next hdot =>
          rw [if_neg hc, if_pos hdot] at h
          exact absurd (h '\u0307' (by simp)) (by decide)
        · exact ⟨_, rfl⟩
    obtain ⟨d, hd⟩ := hform
    have hstep : ∀ rest', lowerAfter b (c :: rest')
        = d :: lowerAfter (if isCaseIgnorable c then b else isCased c) rest' := by
      intro rest'
      rw [lowerAfter, if_neg hsigma, hd]
      rfl
    cases n with
    | zero => rfl
    | succ n =>
      rw [hstep] at h
      rw [List.take_succ_cons, hstep, hstep, List.take_succ_cons,
        ih fun x hx => h x (List.mem_cons_of_mem d hx)]

theorem lower_take {cs : List Char} (h : ∀ d ∈ lower cs, d.toNat < 0x80) (n : Nat) :
    lower (cs.take n) = (lower cs).take n :=
  lowerAfter_take h n

end CommandGrammar.Text
