import Mathlib.Data.List.TakeWhile
import CrashMonkey.Lib.Stream

/-!
# Texts of numbers

What the extraction of a number accepts is white space, a sign, a prefix and digits, up
to a byte that is no digit. The texts that are written are among these.
-/

namespace IStream

theorem digitValue_hexDigit {d : ℕ} (h : d < 16) : digitValue (hexDigit d) = some d := by
  interval_cases d <;> decide

theorem hexValue_hexText (n : ℕ) : hexValue (hexText n) = n := by
  unfold hexText
  split_ifs with hn
  · rw [hn]
    decide
  · unfold hexValue
    rw [List.foldl_reverse, List.foldr_map]
    conv_rhs => rw [← Nat.ofDigits_digits 16 n, Nat.ofDigits_eq_foldr]
    apply List.foldr_ext
    intro d hd m
    rw [digitValue_hexDigit (Nat.digits_lt_base (by decide) hd), Option.getD_some]
    exact Nat.add_comm _ _

theorem isDigit_of_mem_hexText {n : ℕ} {b : UInt8} (h : b ∈ hexText n) : isDigit b = true := by
  unfold hexText at h
  split_ifs at h with hn
  · rw [List.mem_singleton.mp h]
    decide
  · rw [List.mem_reverse, List.mem_map] at h
    obtain ⟨d, hd, rfl⟩ := h
    rw [isDigit, digitValue_hexDigit (Nat.digits_lt_base (by decide) hd)]
    rfl

theorem hexText_ne_nil (n : ℕ) : hexText n ≠ [] := by
  unfold hexText
  split_ifs with hn
  · exact List.cons_ne_nil _ _
  · simpa using Nat.digits_ne_nil_iff_ne_zero.mpr hn

/-- Digits are neither white space, a sign nor the `x` of a prefix. -/
theorem isDigit_spec {b : UInt8} (h : isDigit b = true) :
    isSpace b = false ∧ b ≠ 45 ∧ b ≠ 43 ∧ b ≠ 120 ∧ b ≠ 88 := by
  have hle : 48 ≤ b.toNat := by
    simp only [isDigit, digitValue, UInt8.le_iff_toNat_le, UInt8.reduceToNat] at h
    split_ifs at h
    · omega
    · omega
    · omega
    · cases h
  refine ⟨?_, ?_, ?_, ?_, ?_⟩
  · simp only [isSpace, Bool.or_eq_false_iff, beq_eq_false_iff_ne, Bool.and_eq_false_iff,
      decide_eq_false_iff_not, UInt8.le_iff_toNat_le, UInt8.reduceToNat]
    constructor
    · rintro rfl
      exact absurd hle (by decide)
    · omega
  all_goals
    rintro rfl
    exact absurd h (by decide)

theorem sign_of_isDigit {b : UInt8} (h : isDigit b = true) (bytes : List UInt8) :
    sign (b :: bytes) = (false, b :: bytes) := by
  obtain ⟨-, hminus, hplus, -⟩ := isDigit_spec h
  rw [sign, if_neg hminus, if_neg hplus]

/-- White space is no digit and no `x`. -/
theorem isSpace_spec {b : UInt8} (h : isSpace b = true) :
    isDigit b = false ∧ b ≠ 120 ∧ b ≠ 88 := by
  refine ⟨?_, ?_, ?_⟩
  · by_contra hdigit
    have hspace := (isDigit_spec (Bool.not_eq_false _ ▸ hdigit)).1
    rw [h] at hspace
    cases hspace
  all_goals
    rintro rfl
    exact absurd h (by decide)

structure Ends (b : UInt8) : Prop where
  notDigit : isDigit b = false
  not_x : b ≠ 120
  not_X : b ≠ 88

theorem ends_space : Ends 32 := ⟨by decide, by decide, by decide⟩

theorem basePrefix_digits {digits : List UInt8} (h : ∀ b ∈ digits, isDigit b = true) {b : UInt8}
    (hb : Ends b) (rest : List UInt8) : digits ≠ [] →
    basePrefix (digits ++ b :: rest) = digits ++ b :: rest := by
  intro hne
  match digits, hne with
  | [d], _ => exact if_neg (by simp [hb.not_x, hb.not_X])
  | d :: c :: digits, _ =>
    obtain ⟨-, -, -, hx, hX⟩ := isDigit_spec (h c (by simp))
    exact if_neg (by simp [hx, hX])

theorem span_digits {digits : List UInt8} (h : ∀ b ∈ digits, isDigit b = true) {b : UInt8}
    (hb : Ends b) (rest : List UInt8) :
    (digits ++ b :: rest).takeWhile isDigit = digits ∧
      (digits ++ b :: rest).dropWhile isDigit = b :: rest := by
  have hdigit : ¬ isDigit b = true := by simp [hb.notDigit]
  constructor
  · rw [List.takeWhile_append_of_pos h, List.takeWhile_cons_of_neg hdigit, List.append_nil]
  · rw [List.dropWhile_append_of_pos h, List.dropWhile_cons_of_neg hdigit]

structure Numeral (w : ℕ) where
  spaces : List UInt8
  signs : List UInt8
  base : List UInt8
  digits : List UInt8
  spaces_isSpace : ∀ b ∈ spaces, isSpace b = true
  signs_eq : signs = [] ∨ signs = [43] ∨ signs = [45]
  base_eq : base = [] ∨ base = [48, 120] ∨ base = [48, 88]
  digits_ne : digits ≠ []
  digits_isDigit : ∀ b ∈ digits, isDigit b = true
  value_lt : hexValue digits < 2 ^ w

namespace Numeral

variable {w : ℕ}

def text (n : Numeral w) : List UInt8 := n.spaces ++ (n.signs ++ (n.base ++ n.digits))

def value (n : Numeral w) : BitVec w :=
  if n.signs = [45] then -.ofNat w (hexValue n.digits) else .ofNat w (hexValue n.digits)

/-- Behind the sign stands a digit. -/
theorem exists_digit (n : Numeral w) : ∃ b bytes, n.base ++ n.digits = b :: bytes ∧
    isDigit b = true := by
  rcases n.base_eq with h | h | h
  · obtain ⟨b, digits, hdigits⟩ := List.exists_cons_of_ne_nil n.digits_ne
    exact ⟨b, digits, by simp [h, hdigits], n.digits_isDigit b (hdigits ▸ List.mem_cons_self)⟩
  all_goals exact ⟨_, _, by rw [h]; rfl, by decide⟩

theorem sign_text (n : Numeral w) (rest : List UInt8) :
    sign (n.signs ++ (n.base ++ n.digits ++ rest)) =
      (decide (n.signs = [45]), n.base ++ n.digits ++ rest) := by
  rcases n.signs_eq with h | h | h
  · obtain ⟨b, bytes, hbytes, hb⟩ := n.exists_digit
    rw [h, hbytes, List.nil_append, List.cons_append, sign_of_isDigit hb]
    rfl
  all_goals
    rw [h]
    rfl

theorem basePrefix_text (n : Numeral w) {b : UInt8} (hb : Ends b) (rest : List UInt8) :
    basePrefix (n.base ++ n.digits ++ b :: rest) = n.digits ++ b :: rest := by
  rcases n.base_eq with h | h | h
  · rw [h, List.nil_append, basePrefix_digits n.digits_isDigit hb rest n.digits_ne]
  all_goals
    rw [h]
    rfl

theorem dropWhile_text (n : Numeral w) (rest : List UInt8) :
    (n.text ++ rest).dropWhile isSpace = n.signs ++ (n.base ++ n.digits ++ rest) := by
  obtain ⟨b, bytes, hbytes, hb⟩ := n.exists_digit
  rw [text, List.append_assoc, List.dropWhile_append_of_pos n.spaces_isSpace, List.append_assoc]
  rcases n.signs_eq with h | h | h
  · rw [h, hbytes, List.nil_append, List.cons_append,
      List.dropWhile_cons_of_neg (by simp [(isDigit_spec hb).1])]
  all_goals
    rw [h, List.singleton_append, List.dropWhile_cons_of_neg (by decide)]

end Numeral

theorem extractHex_numeral {w : ℕ} (n : Numeral w) (v : BitVec w) {b : UInt8} (hb : Ends b)
    (rest : List UInt8) : extractHex v ⟨n.text ++ b :: rest, false, false⟩ =
      (n.value, ⟨b :: rest, false, false⟩) := by
  obtain ⟨htake, hdrop⟩ := span_digits n.digits_isDigit hb rest
  have hne : n.signs ++ (n.base ++ n.digits ++ b :: rest) ≠ [] := by simp
  unfold extractHex good
  simp only [n.dropWhile_text, n.sign_text, n.basePrefix_text hb, htake, hdrop, hne, n.digits_ne,
    not_le.mpr n.value_lt, if_false, Numeral.value, decide_eq_true_eq]
  simp

/-- The text that is written, with white space in front of it. -/
def hexNumeral {w : ℕ} (x : BitVec w) (spaces : List UInt8)
    (h : ∀ b ∈ spaces, isSpace b = true) : Numeral w :=
  ⟨spaces, [], [], hexText x.toNat, h, .inl rfl, .inl rfl, hexText_ne_nil _,
    fun _ => isDigit_of_mem_hexText, by rw [hexValue_hexText]; exact x.isLt⟩

theorem hexNumeral_value {w : ℕ} (x : BitVec w) {spaces : List UInt8}
    (h : ∀ b ∈ spaces, isSpace b = true) : (hexNumeral x spaces h).value = x := by
  simp [Numeral.value, hexNumeral, hexValue_hexText]

/-- A number is read back, with white space in front of it and a space behind. -/
theorem extractHex_hexText {w : ℕ} (v x : BitVec w) (spaces : List UInt8)
    (hspaces : ∀ b ∈ spaces, isSpace b = true) (rest : List UInt8) :
    extractHex v ⟨spaces ++ hexText x.toNat ++ 32 :: rest, false, false⟩ =
      (x, ⟨32 :: rest, false, false⟩) := by
  have h := extractHex_numeral (hexNumeral x spaces hspaces) v ends_space rest
  rw [hexNumeral_value] at h
  exact h

theorem sign_cases (bytes : List UInt8) : ∃ signs, bytes = signs ++ (sign bytes).2 ∧
    (signs = [] ∨ signs = [43] ∨ signs = [45]) ∧ (sign bytes).1 = decide (signs = [45]) := by
  cases bytes with
  | nil => exact ⟨[], rfl, .inl rfl, rfl⟩
  | cons b bytes =>
    rw [sign]
    split_ifs with hminus hplus
    · exact ⟨[45], by rw [hminus]; rfl, .inr (.inr rfl), rfl⟩
    · exact ⟨[43], by rw [hplus]; rfl, .inr (.inl rfl), rfl⟩
    · exact ⟨[], rfl, .inl rfl, rfl⟩

theorem basePrefix_cases (bytes : List UInt8) : ∃ base, bytes = base ++ basePrefix bytes ∧
    (base = [] ∨ base = [48, 120] ∨ base = [48, 88]) := by
  match bytes with
  | [] => exact ⟨[], rfl, .inl rfl⟩
  | [b] => exact ⟨[], rfl, .inl rfl⟩
  | b :: c :: bytes =>
    rw [basePrefix]
    split_ifs with h
    · obtain ⟨rfl, rfl | rfl⟩ := h
      · exact ⟨[48, 120], rfl, .inr (.inl rfl)⟩
      · exact ⟨[48, 88], rfl, .inr (.inr rfl)⟩
    · exact ⟨[], rfl, .inl rfl⟩

/-- No digit is left behind. -/
theorem not_isDigit_of_head {bytes : List UInt8} {b : UInt8}
    (h : (bytes.dropWhile isDigit).head? = some b) : isDigit b = false := by
  have hall := List.head?_dropWhile_not isDigit bytes
  rw [h] at hall
  simpa using hall

theorem extractHex_ok {w : ℕ} {v x : BitVec w} {is is' : IStream}
    (h : extractHex v is = (x, is')) (hok : is'.failbit = false) :
    is.good = true ∧ is'.eofbit = is'.rest.isEmpty ∧
      (∀ b, is'.rest.head? = some b → isDigit b = false) ∧
      ∃ n : Numeral w, is.rest = n.text ++ is'.rest ∧ x = n.value := by
  unfold extractHex at h
  dsimp only at h
  obtain ⟨signs, hsigns, hsign, hminus⟩ := sign_cases (is.rest.dropWhile isSpace)
  obtain ⟨base, hbase, hprefix⟩ := basePrefix_cases (sign (is.rest.dropWhile isSpace)).2
  rw [hminus] at h
  generalize basePrefix (sign (is.rest.dropWhile isSpace)).2 = bytes at h hbase
  have htext : is.rest = is.rest.takeWhile isSpace ++ (signs ++ (base ++ bytes.takeWhile isDigit)) ++
      bytes.dropWhile isDigit := by
    calc is.rest = is.rest.takeWhile isSpace ++ is.rest.dropWhile isSpace :=
          List.takeWhile_append_dropWhile.symm
      _ = is.rest.takeWhile isSpace ++ (signs ++ (base ++ bytes)) :=
          congrArg _ (hsigns.trans (congrArg (signs ++ ·) hbase))
      _ = is.rest.takeWhile isSpace ++ (signs ++ (base ++
            (bytes.takeWhile isDigit ++ bytes.dropWhile isDigit))) := by
          rw [List.takeWhile_append_dropWhile]
      _ = _ := by simp only [List.append_assoc]
  simp only [decide_eq_true_eq] at h
  split_ifs at h with hbad hempty hdigits hbig hneg
  all_goals
    obtain ⟨rfl, rfl⟩ := Prod.mk.inj h
  · rw [setFail] at hok
    cases hok
  · cases hok
  · cases hok
  · cases hok
  all_goals
    exact ⟨by simpa using hbad, rfl, fun b => not_isDigit_of_head,
      ⟨is.rest.takeWhile isSpace, signs, base, _, fun b => List.mem_takeWhile_imp, hsign, hprefix,
        hdigits, fun b => List.mem_takeWhile_imp, not_le.mp hbig⟩, htext,
      by simp [Numeral.value, hneg]⟩

/-- A number after which the stream is good ends in front of a byte that is no digit. -/
theorem extractHex_good {w : ℕ} {v x : BitVec w} {is is' : IStream}
    (h : extractHex v is = (x, is')) (hgood : is'.good = true) :
    ∃ (n : Numeral w) (b : UInt8) (rest : List UInt8), isDigit b = false ∧ x = n.value ∧
      is = ⟨n.text ++ b :: rest, false, false⟩ ∧ is' = ⟨b :: rest, false, false⟩ := by
  obtain ⟨bytes, eofbit, failbit⟩ := is
  obtain ⟨rest', eofbit', failbit'⟩ := is'
  obtain ⟨heof', hfail'⟩ := good_iff.mp hgood
  obtain ⟨hbefore, hempty, hhead, n, htext, rfl⟩ := extractHex_ok h hfail'
  obtain ⟨heof, hfail⟩ := good_iff.mp hbefore
  dsimp only at heof' hfail' hempty hhead htext heof hfail
  subst heof' hfail' heof hfail htext
  cases rest' with
  | nil => cases hempty
  | cons b rest => exact ⟨n, b, rest, hhead b rfl, rfl, rfl, rfl⟩

namespace Numeral

variable {w : ℕ}

/-- The text starts in front of the first digit, so that it can stand behind digits. -/
def Apart (n : Numeral w) : Prop := n.spaces ++ n.signs ≠ []

theorem Apart.text_eq {n : Numeral w} (h : n.Apart) :
    ∃ b bytes, n.text = b :: bytes ∧ Ends b := by
  unfold text
  cases hspaces : n.spaces with
  | cons b spaces =>
    obtain ⟨hdigit, hx, hX⟩ := isSpace_spec (n.spaces_isSpace b (hspaces ▸ List.mem_cons_self))
    exact ⟨b, _, rfl, hdigit, hx, hX⟩
  | nil =>
    rcases n.signs_eq with hsigns | hsigns | hsigns
    · exact absurd (show n.spaces ++ n.signs = [] by rw [hspaces, hsigns]; rfl) h
    all_goals
      rw [hsigns]
      exact ⟨_, _, rfl, by decide, by decide, by decide⟩

/-- A text that starts with no digit is apart. -/
theorem apart_of_text {n : Numeral w} {b : UInt8} {rest rest' : List UInt8}
    (h : n.text ++ rest = b :: rest') (hb : isDigit b = false) : n.Apart := by
  intro happ
  obtain ⟨hspaces, hsigns⟩ := List.append_eq_nil_iff.mp happ
  obtain ⟨c, bytes, hbytes, hc⟩ := n.exists_digit
  rw [text, hspaces, hsigns, List.nil_append, List.nil_append, hbytes, List.cons_append,
    List.cons.injEq] at h
  rw [h.1, hb] at hc
  cases hc

end Numeral

theorem extractHex_apart {w w' : ℕ} (n : Numeral w) (v : BitVec w) {m : Numeral w'}
    (hm : m.Apart) (rest : List UInt8) : extractHex v ⟨n.text ++ (m.text ++ rest), false, false⟩ =
      (n.value, ⟨m.text ++ rest, false, false⟩) := by
  obtain ⟨b, bytes, hbytes, hb⟩ := hm.text_eq
  rw [hbytes, List.cons_append, extractHex_numeral n v hb]

end IStream
