import Mathlib.Tactic.SplitIfs
import NotebookProject.Text.Utf8

/-!
# Decoding undoes encoding

## Main results

* `step_eq_some`, `step_encodeChar`: a step reads the octets of one character.
* `decode_encode`: the octets of a text decode to the text.
* `encode_of_decode`: octets that decode are those of the characters they decode to.
* `decodeLossy_of_decode`: nothing is replaced in octets that decode.
-/

namespace NotebookProject.Text.Utf8

variable {bs rest : List Nat} {c : Char} {cs : List Char}

/-! ## One character -/

theorem toNat_ofNat {n : Nat} (h : n.isValidChar) : (Char.ofNat n).toNat = n := by
  rw [Char.ofNat, dif_pos h]
  rfl

theorem encodeChar_one {a : Nat} (h : a < 0x80) : encodeChar (Char.ofNat a) = [a] := by
  have hn := toNat_ofNat (n := a) (.inl (by omega))
  simp [encodeChar, hn, h]

theorem encodeChar_two {a b : Nat} (ha : 0xC2 ≤ a) (ha' : a ≤ 0xDF) (hb : 0x80 ≤ b)
    (hb' : b ≤ 0xBF) : encodeChar (Char.ofNat ((a - 0xC0) * 64 + payload b)) = [a, b] := by
  unfold payload
  have hn := toNat_ofNat (n := (a - 0xC0) * 64 + (b - 0x80)) (.inl (by omega))
  simp only [encodeChar, hn]
  rw [if_neg (by omega), if_pos (by omega)]
  simp only [List.cons.injEq, and_true]
  omega

/-- The second octet keeps the number out of the surrogates and above the shorter forms. -/
theorem encodeChar_three {a b c : Nat} (ha : 0xE0 ≤ a) (ha' : a ≤ 0xEF) (hb : 0x80 ≤ b)
    (hb' : b ≤ 0xBF) (hc : 0x80 ≤ c) (hc' : c ≤ 0xBF) (hlong : a = 0xE0 → 0xA0 ≤ b)
    (hsurrogate : a = 0xED → b ≤ 0x9F) :
    encodeChar (Char.ofNat ((a - 0xE0) * 4096 + payload b * 64 + payload c)) = [a, b, c] := by
  unfold payload
  have hvalid : ((a - 0xE0) * 4096 + (b - 0x80) * 64 + (c - 0x80)).isValidChar := by
    unfold Nat.isValidChar
    omega
  simp only [encodeChar, toNat_ofNat hvalid]
  rw [if_neg (by omega), if_neg (by omega), if_pos (by omega)]
  simp only [List.cons.injEq, and_true]
  omega

/-- The second octet keeps the number above the shorter forms and below the last code point. -/
theorem encodeChar_four {a b c d : Nat} (ha : 0xF0 ≤ a) (ha' : a ≤ 0xF4) (hb : 0x80 ≤ b)
    (hb' : b ≤ 0xBF) (hc : 0x80 ≤ c) (hc' : c ≤ 0xBF) (hd : 0x80 ≤ d) (hd' : d ≤ 0xBF)
    (hlong : a = 0xF0 → 0x90 ≤ b) (hlast : a = 0xF4 → b ≤ 0x8F) :
    encodeChar (Char.ofNat
      ((a - 0xF0) * 262144 + payload b * 4096 + payload c * 64 + payload d)) = [a, b, c, d] := by
  unfold payload
  have hvalid : ((a - 0xF0) * 262144 + (b - 0x80) * 4096 + (c - 0x80) * 64 +
      (d - 0x80)).isValidChar := by
    unfold Nat.isValidChar
    omega
  simp only [encodeChar, toNat_ofNat hvalid]
  rw [if_neg (by omega), if_neg (by omega), if_neg (by omega)]
  simp only [List.cons.injEq, and_true]
  omega

theorem step_eq_some (h : step bs = some (c, rest)) : bs = encodeChar c ++ rest := by
  rcases bs with _ | ⟨a, bs⟩
  · cases h
  · simp only [step, isTail] at h
    split_ifs at h with hone htwo hthree hfour
    · obtain ⟨rfl, rfl⟩ := Prod.mk.inj (Option.some.inj h)
      rw [encodeChar_one hone, List.singleton_append]
    · rcases bs with _ | ⟨b, bs⟩
      · cases h
      · obtain ⟨htail, h⟩ := Option.ite_none_right_eq_some.mp h
        obtain ⟨rfl, rfl⟩ := Prod.mk.inj (Option.some.inj h)
        rw [encodeChar_two (by grind) (by grind) (by grind) (by grind)]
        rfl
    · rcases bs with _ | ⟨b, _ | ⟨c, bs⟩⟩
      · cases h
      · cases h
      · obtain ⟨htail, h⟩ := Option.ite_none_right_eq_some.mp h
        obtain ⟨rfl, rfl⟩ := Prod.mk.inj (Option.some.inj h)
        rw [encodeChar_three (by grind) (by grind) (by grind) (by grind) (by grind) (by grind)
          (by grind) (by grind)]
        rfl
    · rcases bs with _ | ⟨b, _ | ⟨c, _ | ⟨d, bs⟩⟩⟩
      · cases h
      · cases h
      · cases h
      · obtain ⟨htail, h⟩ := Option.ite_none_right_eq_some.mp h
        obtain ⟨rfl, rfl⟩ := Prod.mk.inj (Option.some.inj h)
        rw [encodeChar_four (by grind) (by grind) (by grind) (by grind) (by grind) (by grind)
          (by grind) (by grind) (by grind) (by grind)]
        rfl

theorem isTail_tail (n : Nat) : isTail (0x80 + n % 64) = true := by
  simp only [isTail, Bool.and_eq_true, decide_eq_true_eq]
  omega

theorem payload_tail (n : Nat) : payload (0x80 + n) = n :=
  Nat.add_sub_cancel_left 0x80 n

/-- A step undoes the encoding of a character. The second octet is in the range that its first one
asks for, since no character is a surrogate or past the last code point. -/
theorem step_encodeChar (c : Char) (rest : List Nat) :
    step (encodeChar c ++ rest) = some (c, rest) := by
  have hvalid : c.toNat < 0xD800 ∨ (0xDFFF < c.toNat ∧ c.toNat < 0x110000) := c.valid
  have hchar : ∀ n, n = c.toNat → Char.ofNat n = c := by
    rintro n rfl
    exact Char.ofNat_toNat c
  simp only [encodeChar]
  generalize c.toNat = n at hvalid hchar
  split_ifs with hone htwo hthree
  · simp [step, hone, hchar]
  · have hnumber : (0xC0 + n / 64 - 0xC0) * 64 + n % 64 = n := by omega
    simp only [step, List.cons_append, List.nil_append, isTail_tail, payload_tail, hchar _ hnumber]
    rw [if_neg (by omega), if_pos (by simp; omega)]
    rfl
  · have hnumber : (0xE0 + n / 4096 - 0xE0) * 4096 + n / 64 % 64 * 64 + n % 64 = n := by omega
    simp only [step, List.cons_append, List.nil_append, isTail_tail, payload_tail, hchar _ hnumber]
    rw [if_neg (by omega), if_neg (by simp; omega), if_pos (by simp; omega), if_pos]
    simp
    omega
  · have hnumber : (0xF0 + n / 262144 - 0xF0) * 262144 + n / 4096 % 64 * 4096 +
        n / 64 % 64 * 64 + n % 64 = n := by omega
    simp only [step, List.cons_append, List.nil_append, isTail_tail, payload_tail, hchar _ hnumber]
    rw [if_neg (by omega), if_neg (by simp; omega), if_neg (by simp; omega),
      if_pos (by simp; omega), if_pos]
    simp
    omega

theorem width_pos (c : Char) : 1 ≤ width c := by
  unfold width encodeChar
  dsimp only
  split_ifs <;> simp

/-! ## Whole sequences -/

theorem encode_cons (c : Char) (cs : List Char) : encode (c :: cs) = encodeChar c ++ encode cs :=
  rfl

theorem size_cons (c : Char) (cs : List Char) : size (c :: cs) = width c + size cs := rfl

theorem length_encode (cs : List Char) : (encode cs).length = size cs := by
  induction cs with
  | nil => rfl
  | cons c cs ih => rw [encode_cons, List.length_append, ih, size_cons, width]

theorem length_le_size (cs : List Char) : cs.length ≤ size cs := by
  induction cs with
  | nil => exact Nat.le_refl 0
  | cons c cs ih =>
    have hwidth := width_pos c
    rw [List.length_cons, size_cons]
    omega

/-- What is still to be read gives the characters whose octets it is, and a decoding that replaces
gives the same ones. -/
theorem decodeFrom_eq_ok {fuel done : Nat} {read : List Char}
    (h : decodeFrom fuel done read bs = .ok cs) :
    cs = read.reverse ++ decodeLossyFrom fuel bs ∧ encode (decodeLossyFrom fuel bs) = bs := by
  induction fuel generalizing done read bs with
  | zero =>
    cases bs with
    | nil =>
      cases h
      exact ⟨(List.append_nil _).symm, rfl⟩
    | cons b bs => cases h
  | succ fuel ih =>
    cases bs with
    | nil =>
      cases h
      exact ⟨(List.append_nil _).symm, rfl⟩
    | cons b bs =>
      simp only [decodeFrom] at h
      simp only [decodeLossyFrom]
      cases hstep : step (b :: bs) with
      | none => simp [hstep] at h
      | some p =>
        obtain ⟨c, rest⟩ := p
        simp only [hstep] at h ⊢
        obtain ⟨hcs, hencode⟩ := ih h
        refine ⟨by simpa using hcs, ?_⟩
        rw [step_eq_some hstep, encode, List.flatMap_cons, ← encode, hencode]

theorem decodeLossy_of_decode (h : decode bs = .ok cs) : decodeLossy bs = cs :=
  (decodeFrom_eq_ok h).1.symm

theorem decodeFrom_encode {fuel : Nat} (done : Nat) (read cs : List Char)
    (h : cs.length ≤ fuel) : decodeFrom fuel done read (encode cs) = .ok (read.reverse ++ cs) := by
  induction cs generalizing fuel done read with
  | nil => simp [encode, decodeFrom]
  | cons c cs ih =>
    obtain _ | fuel := fuel
    · simp at h
    · have hstep := step_encodeChar c (encode cs)
      rw [encode_cons]
      cases hoctets : encodeChar c ++ encode cs with
      | nil => simp [hoctets, step] at hstep
      | cons b bs =>
        rw [hoctets] at hstep
        simp only [decodeFrom, hstep, ih (done + width c) (c :: read) (Nat.le_of_succ_le_succ h)]
        simp

/-- The octets of a text decode to the text. -/
theorem decode_encode (cs : List Char) : decode (encode cs) = .ok cs := by
  refine decodeFrom_encode 0 [] cs ?_
  rw [length_encode]
  exact length_le_size cs

theorem encode_of_decode (h : decode bs = .ok cs) : encode cs = bs := by
  rw [← decodeLossy_of_decode h]
  exact (decodeFrom_eq_ok h).2

end NotebookProject.Text.Utf8
