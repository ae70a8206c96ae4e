import Binisaya.Text.Utf8
import Mathlib.Data.List.Basic

/-!
# Characters as bytes and back

Decoding undoes encoding, texts on both sides of a byte below 128 are decoded apart, and encoding
keeps the order: texts compare like their bytes.
-/

namespace Binisaya

namespace Utf8

/-! ### The widths of a sequence -/

theorem toNat_lt (c : Char) : c.toNat < 0x110000 := by
  have hvalid : c.toNat.isValidChar := c.valid
  rcases hvalid with h | h <;> omega

theorem scalar?_toNat {least : Nat} {c : Char} {v : Nat} (hv : v = c.toNat) (h : least ≤ v) :
    scalar? least v = some c := by
  subst hv
  have hvalid : c.toNat.isValidChar := c.valid
  rw [scalar?, if_pos ⟨h, hvalid⟩, Char.ofNat_toNat]

/-- A byte that carries six bits of a code point is a continuation byte with those bits. -/
theorem continuation_ofNat (n : Nat) :
    isContinuation (UInt8.ofNat (n % 64 + 128)) = true ∧
      payload (UInt8.ofNat (n % 64 + 128)) = n % 64 := by
  have hbyte : (UInt8.ofNat (n % 64 + 128)).toNat = n % 64 + 128 := by
    rw [UInt8.toNat_ofNat']
    omega
  constructor
  · simp only [isContinuation, Bool.and_eq_true, decide_eq_true_eq, UInt8.le_iff_toNat_le, hbyte,
      UInt8.reduceToNat]
    omega
  · rw [payload, hbyte]
    omega

/-- Two bytes with eleven bits of a code point. -/
theorem two?_ofNat {c : Char} (hlow : 0x7F < c.toNat) (hhigh : c.toNat ≤ 0x7FF) :
    two? (UInt8.ofNat (c.toNat / 64 % 32 + 192)) (UInt8.ofNat (c.toNat % 64 + 128)) = some c := by
  obtain ⟨hcont, hbits⟩ := continuation_ofNat c.toNat
  have ha : (UInt8.ofNat (c.toNat / 64 % 32 + 192)).toNat = c.toNat / 64 % 32 + 192 := by
    rw [UInt8.toNat_ofNat']
    omega
  rw [two?, if_pos]
  · rw [ha, hbits]
    exact scalar?_toNat (by omega) (by omega)
  · simp only [UInt8.le_iff_toNat_le, ha, UInt8.reduceToNat]
    exact ⟨by omega, by omega, hcont⟩

/-- Three bytes with sixteen bits of a code point. -/
theorem three?_ofNat {c : Char} (hlow : 0x7FF < c.toNat) (hhigh : c.toNat ≤ 0xFFFF) :
    three? (UInt8.ofNat (c.toNat / 4096 % 16 + 224)) (UInt8.ofNat (c.toNat / 64 % 64 + 128))
      (UInt8.ofNat (c.toNat % 64 + 128)) = some c := by
  obtain ⟨hcont, hbits⟩ := continuation_ofNat c.toNat
  obtain ⟨hcont', hbits'⟩ := continuation_ofNat (c.toNat / 64)
  have ha : (UInt8.ofNat (c.toNat / 4096 % 16 + 224)).toNat = c.toNat / 4096 % 16 + 224 := by
    rw [UInt8.toNat_ofNat']
    omega
  rw [three?, if_pos]
  · rw [ha, hbits', hbits]
    exact scalar?_toNat (by omega) (by omega)
  · simp only [UInt8.le_iff_toNat_le, ha, UInt8.reduceToNat]
    exact ⟨by omega, by omega, hcont', hcont⟩

/-- Four bytes with twenty-one bits of a code point. -/
theorem four?_ofNat {c : Char} (hlow : 0xFFFF < c.toNat) :
    four? (UInt8.ofNat (c.toNat / 262144 % 8 + 240)) (UInt8.ofNat (c.toNat / 4096 % 64 + 128))
      (UInt8.ofNat (c.toNat / 64 % 64 + 128)) (UInt8.ofNat (c.toNat % 64 + 128)) = some c := by
  have hmax := toNat_lt c
  obtain ⟨hcont, hbits⟩ := continuation_ofNat c.toNat
  obtain ⟨hcont', hbits'⟩ := continuation_ofNat (c.toNat / 64)
  obtain ⟨hcont'', hbits''⟩ := continuation_ofNat (c.toNat / 4096)
  have ha : (UInt8.ofNat (c.toNat / 262144 % 8 + 240)).toNat = c.toNat / 262144 % 8 + 240 := by
    rw [UInt8.toNat_ofNat']
    omega
  rw [four?, if_pos]
  · rw [ha, hbits'', hbits', hbits]
    exact scalar?_toNat (by omega) (by omega)
  · simp only [UInt8.le_iff_toNat_le, ha, UInt8.reduceToNat]
    exact ⟨by omega, by omega, hcont'', hcont', hcont⟩

/-! ### Decoding undoes encoding -/

theorem head_of_two {a b : UInt8} {c : Char} (ha : 0x80 ≤ a) (h : two? a b = some c)
    (rest : List UInt8) : head a (b :: rest) = (c, rest) := by
  have hnot : ¬ a < 0x80 := UInt8.not_lt.mpr ha
  match rest with
  | [] => simp [head, hnot, h]
  | [x] => simp [head, hnot, h]
  | x :: y :: rest => simp [head, hnot, h]

/-- A byte that leads more than two bytes is no character and leads no two. -/
theorem two?_eq_none {a : UInt8} (ha : 0xDF < a) (b : UInt8) : ¬ a < 0x80 ∧ two? a b = none := by
  rw [UInt8.lt_iff_toNat_lt] at ha
  simp only [UInt8.reduceToNat] at ha
  constructor
  · simp only [UInt8.lt_iff_toNat_lt, UInt8.reduceToNat]
    omega
  · rw [two?, if_neg]
    simp only [UInt8.le_iff_toNat_le, UInt8.reduceToNat]
    omega

theorem head_of_three {a b x : UInt8} {c : Char} (ha : 0xDF < a) (h : three? a b x = some c)
    (rest : List UInt8) : head a (b :: x :: rest) = (c, rest) := by
  obtain ⟨hnot, htwo⟩ := two?_eq_none ha b
  cases rest with
  | nil => simp [head, hnot, htwo, h]
  | cons y rest => simp [head, hnot, htwo, h]

theorem head_of_four {a b x y : UInt8} {c : Char} (ha : 0xEF < a) (h : four? a b x y = some c)
    (rest : List UInt8) : head a (b :: x :: y :: rest) = (c, rest) := by
  obtain ⟨hnot, htwo⟩ := two?_eq_none (UInt8.lt_trans (by decide : (0xDF : UInt8) < 0xEF) ha) b
  have hthree : three? a b x = none := by
    rw [three?, if_neg]
    simp only [UInt8.lt_iff_toNat_lt, UInt8.le_iff_toNat_le, UInt8.reduceToNat] at ha ⊢
    omega
  simp [head, hnot, htwo, hthree, h]

/-- The bytes of a character are read as that character. -/
theorem head_encodeChar (c : Char) (rest : List UInt8) :
    ∃ a bytes, String.utf8EncodeChar c ++ rest = a :: bytes ∧ head a bytes = (c, rest) := by
  have hmax := toNat_lt c
  unfold String.utf8EncodeChar
  rw [show c.val.toNat = c.toNat from rfl]
  simp only
  split_ifs with hone htwo hthree
  · have ha : (UInt8.ofNat c.toNat).toNat = c.toNat := by
      rw [UInt8.toNat_ofNat']
      omega
    have hlt : UInt8.ofNat c.toNat < 0x80 := by
      simp only [UInt8.lt_iff_toNat_lt, ha, UInt8.reduceToNat]
      omega
    refine ⟨_, _, rfl, ?_⟩
    rw [head.eq_def, if_pos hlt, ha, Char.ofNat_toNat]
    rfl
  · refine ⟨_, _, rfl, head_of_two ?_ (two?_ofNat (by omega) htwo) rest⟩
    simp only [UInt8.le_iff_toNat_le, UInt8.toNat_ofNat', UInt8.reduceToNat]
    omega
  · refine ⟨_, _, rfl, head_of_three ?_ (three?_ofNat (by omega) hthree) rest⟩
    simp only [UInt8.lt_iff_toNat_lt, UInt8.toNat_ofNat', UInt8.reduceToNat]
    omega
  · refine ⟨_, _, rfl, head_of_four ?_ (four?_ofNat (by omega)) rest⟩
    simp only [UInt8.lt_iff_toNat_lt, UInt8.toNat_ofNat', UInt8.reduceToNat]
    omega

theorem decode_encode (text : List Char) : decode (encode text) = text := by
  induction text with
  | nil => rw [encode, List.flatMap_nil, decode]
  | cons c text ih =>
    obtain ⟨a, bytes, hbytes, hhead⟩ := head_encodeChar c (encode text)
    have hcons : encode (c :: text) = a :: bytes := hbytes
    rw [hcons, decode, hhead, ih]

/-! ### Bytes that are characters by themselves -/

/-- A byte below 128 continues no sequence. -/
theorem not_continuation {c : UInt8} (hc : c < 0x80) : isContinuation c = false := by
  have hnot : ¬ 0x80 ≤ c := UInt8.not_le.mpr hc
  simp [isContinuation, hnot]

/-- A sequence that is cut off by a byte below 128 is read as at the end of the bytes. -/
theorem head_append {c : UInt8} (hc : c < 0x80) (a : UInt8) (rest after : List UInt8) :
    head a (rest ++ c :: after) = ((head a rest).1, (head a rest).2 ++ c :: after) := by
  have hcont := not_continuation hc
  have htwo : ∀ x, two? x c = none := by simp [two?, hcont]
  have hthree : ∀ x y, three? x y c = none ∧ three? x c y = none := by simp [three?, hcont]
  have hfour : ∀ x y z, four? x y z c = none ∧ four? x y c z = none ∧ four? x c y z = none := by
    simp [four?, hcont]
  by_cases ha : a < 0x80
  · simp [head, ha]
  -- which widths are tried depends on how many bytes are left, so the byte can be in any of three
  match rest, after with
  | [], [] | [], [_] | [], _ :: _ :: _ => simp [head, ha, htwo, hthree, hfour]
  | [b], [] | [b], _ :: _ => cases hb : two? a b <;> simp [head, ha, hb, hthree, hfour]
  | [b, d], after =>
    cases hb : two? a b <;> cases hd : three? a b d <;> simp [head, ha, hb, hd, hfour]
  | b :: d :: e :: rest, after =>
    cases hb : two? a b <;> cases hd : three? a b d <;> cases he : four? a b d e <;>
      simp [head, ha, hb, hd, he]

/-- A byte below 128 is a character by itself, and what stands around it is read apart. -/
theorem decode_append {c : UInt8} (hc : c < 0x80) (before after : List UInt8) :
    decode (before ++ c :: after) = decode before ++ Char.ofNat c.toNat :: decode after := by
  induction before using decode.induct with
  | case1 =>
    rw [List.nil_append, decode, decode, head.eq_def, if_pos hc]
    rfl
  | case2 a rest ih =>
    rw [List.cons_append, decode, head_append hc, ih, decode]
    rfl

/-! ### Encoding keeps the order -/

/-- Of two characters the smaller one has the smaller bytes, whatever follows them. -/
theorem encodeChar_append_lt {c d : Char} (h : c < d) (xs ys : List UInt8) :
    String.utf8EncodeChar c ++ xs < String.utf8EncodeChar d ++ ys := by
  have hlt : c.toNat < d.toNat := UInt32.lt_iff_toNat_lt.mp h
  have hmax := toNat_lt d
  unfold String.utf8EncodeChar
  rw [show c.val.toNat = c.toNat from rfl, show d.val.toNat = d.toNat from rfl]
  generalize c.toNat = v at hlt
  generalize d.toNat = w at hlt hmax
  -- the bits of a code point in groups of six
  have hsix : ∀ n, n / 4096 = n / 64 / 64 ∧ n / 262144 = n / 64 / 64 / 64 := fun n => by
    simp [Nat.div_div_eq_div_mul]
  simp only [(hsix v).1, (hsix v).2, (hsix w).1, (hsix w).2]
  split_ifs <;>
    simp only [List.cons_append, List.nil_append, List.cons_lt_cons_iff, UInt8.lt_iff_toNat_lt,
      ← UInt8.toNat_inj, UInt8.toNat_ofNat'] <;>
    omega

/-- Texts compare like their bytes. -/
theorem encode_lt {text text' : List Char} (h : text < text') : encode text < encode text' := by
  induction text generalizing text' with
  | nil =>
    cases text' with
    | nil => cases h
    | cons d ds =>
      obtain ⟨a, bytes, hbytes, -⟩ := head_encodeChar d (encode ds)
      have hcons : encode (d :: ds) = a :: bytes := hbytes
      rw [hcons]
      exact List.nil_lt_cons a bytes
  | cons c cs ih =>
    cases text' with
    | nil => cases h
    | cons d ds =>
      rcases List.cons_lt_cons_iff.mp h with hcd | ⟨rfl, hrest⟩
      · exact encodeChar_append_lt hcd _ _
      · exact List.append_left_lt (ih hrest)

end Utf8

end Binisaya
