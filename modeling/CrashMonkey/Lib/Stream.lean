import Mathlib.Tactic

/-!
# Streams of bytes

Numbers as text and raw bytes in one file, as the streams of the standard library of C++
write and read them.
-/

/-- An input stream: the bytes still to be read, and two bits of its state. -/
structure IStream where
  rest : List UInt8
  eofbit : Bool
  failbit : Bool
deriving DecidableEq, Repr

namespace IStream

def hexDigit (d : ℕ) : UInt8 := if d < 10 then .ofNat (48 + d) else .ofNat (87 + d)

def digitValue (b : UInt8) : Option ℕ :=
  if 48 ≤ b ∧ b ≤ 57 then some (b.toNat - 48)
  else if 97 ≤ b ∧ b ≤ 102 then some (b.toNat - 87)
  else if 65 ≤ b ∧ b ≤ 70 then some (b.toNat - 55)
  else none

def isDigit (b : UInt8) : Bool := (digitValue b).isSome

/-- What `os << std::hex << n` writes. -/
def hexText (n : ℕ) : List UInt8 :=
  if n = 0 then [hexDigit 0] else ((Nat.digits 16 n).map hexDigit).reverse

def hexValue (digits : List UInt8) : ℕ :=
  digits.foldl (fun n b => 16 * n + (digitValue b).getD 0) 0

/-- The stream on a file; one that cannot be opened fails. -/
def ofFile : Option (List UInt8) → IStream
  | none => ⟨[], false, true⟩
  | some bytes => ⟨bytes, false, false⟩

def good (is : IStream) : Bool := !is.eofbit && !is.failbit

/-- What every input function does to a stream that is not good. -/
def setFail (is : IStream) : IStream := { is with failbit := true }

/-- `is.peek()`, where `none` is `EOF`. -/
def peek (is : IStream) : Option UInt8 × IStream :=
  if !is.good then (none, is.setFail)
  else match is.rest with
    | [] => (none, { is with eofbit := true })
    | b :: _ => (some b, is)

/-- `is.get(c)`, on the old value of `c`. -/
def get (c : UInt8) (is : IStream) : UInt8 × IStream :=
  if !is.good then (c, is.setFail)
  else match is.rest with
    | [] => (c, ⟨[], true, true⟩)
    | b :: rest => (b, { is with rest := rest })

def read (n : ℕ) (is : IStream) : List UInt8 × IStream :=
  if !is.good then ([], is.setFail)
  else if is.rest.length < n then (is.rest, ⟨[], true, true⟩)
  else (is.rest.take n, { is with rest := is.rest.drop n })

def isSpace (b : UInt8) : Bool := b == 32 || (9 ≤ b && b ≤ 13)

/-- A sign in front of a number: whether it is a minus, and what follows. -/
def sign : List UInt8 → Bool × List UInt8
  | [] => (false, [])
  | b :: rest =>
    if b = 45 then (true, rest) else if b = 43 then (false, rest) else (false, b :: rest)

def basePrefix : List UInt8 → List UInt8
  | b :: c :: rest => if b = 48 ∧ (c = 120 ∨ c = 88) then rest else b :: c :: rest
  | bytes => bytes

/-- `is >> std::skipws >> std::hex >> v` for an unsigned `v` of `w` bits, on its old
value. -/
def extractHex {w : ℕ} (v : BitVec w) (is : IStream) : BitVec w × IStream :=
  if !is.good then (v, is.setFail)
  else
    let bytes := is.rest.dropWhile isSpace
    if bytes = [] then (v, ⟨[], true, true⟩)
    else
      let (minus, bytes) := sign bytes
      let bytes := basePrefix bytes
      let digits := bytes.takeWhile isDigit
      let rest := bytes.dropWhile isDigit
      let n := hexValue digits
      if digits = [] then (0, ⟨rest, rest.isEmpty, true⟩)
      else if 2 ^ w ≤ n then (.allOnes w, ⟨rest, rest.isEmpty, true⟩)
      else (if minus then -.ofNat w n else .ofNat w n, ⟨rest, rest.isEmpty, false⟩)

theorem peek_rest (is : IStream) : is.peek.2.rest = is.rest := by
  unfold peek
  split_ifs
  · rfl
  · split <;> rfl

theorem rest_get_le (c : UInt8) (is : IStream) : (is.get c).2.rest.length ≤ is.rest.length := by
  unfold get
  split_ifs
  · exact le_rfl
  · split
    · exact Nat.zero_le _
    · rename_i hrest
      simp [hrest]

/-- A byte that is stored has been taken from the stream. -/
theorem rest_get_lt {c : UInt8} {is : IStream} (h : (is.get c).1 ≠ c) :
    (is.get c).2.rest.length < is.rest.length := by
  unfold get at h ⊢
  split_ifs at h ⊢ with hgood
  · exact absurd rfl h
  · split at h
    · exact absurd rfl h
    · rename_i hrest
      simp [hrest]

theorem rest_read_le (n : ℕ) (is : IStream) : (is.read n).2.rest.length ≤ is.rest.length := by
  unfold read
  split_ifs
  · exact le_rfl
  · exact Nat.zero_le _
  · simp

theorem length_sign_le (bytes : List UInt8) : (sign bytes).2.length ≤ bytes.length := by
  unfold sign
  split
  · exact le_rfl
  · split_ifs <;> simp

theorem length_basePrefix_le (bytes : List UInt8) : (basePrefix bytes).length ≤ bytes.length := by
  unfold basePrefix
  split
  · split_ifs
    · simp only [List.length_cons]
      omega
    · exact le_rfl
  · exact le_rfl

theorem rest_extractHex_le {w : ℕ} (v : BitVec w) (is : IStream) :
    (is.extractHex v).2.rest.length ≤ is.rest.length := by
  have hspace := (List.dropWhile_suffix isSpace (l := is.rest)).length_le
  have hsign := length_sign_le (is.rest.dropWhile isSpace)
  have hbase := length_basePrefix_le (sign (is.rest.dropWhile isSpace)).2
  have hdigits := (List.dropWhile_suffix isDigit
    (l := basePrefix (sign (is.rest.dropWhile isSpace)).2)).length_le
  unfold extractHex
  dsimp only
  split_ifs
  · exact le_rfl
  · exact Nat.zero_le _
  all_goals
    dsimp only
    omega

theorem good_iff {is : IStream} : is.good = true ↔ is.eofbit = false ∧ is.failbit = false := by
  simp [good]

/-- A `get` after which the stream is good has stored its next byte. -/
theorem get_ok {c b : UInt8} {is is' : IStream} (h : is.get c = (b, is'))
    (hgood : is'.good = true) :
    ∃ rest, is = ⟨b :: rest, false, false⟩ ∧ is' = ⟨rest, false, false⟩ := by
  obtain ⟨bytes, eofbit, failbit⟩ := is
  unfold get at h
  split_ifs at h with hbad
  · obtain ⟨rfl, rfl⟩ := Prod.mk.inj h
    simp [good, setFail] at hgood
  · have hok : eofbit = false ∧ failbit = false := by simpa [good] using hbad
    obtain ⟨rfl, rfl⟩ := hok
    cases bytes with
    | nil =>
      obtain ⟨rfl, rfl⟩ := Prod.mk.inj h
      simp [good] at hgood
    | cons b' rest =>
      obtain ⟨rfl, rfl⟩ := Prod.mk.inj h
      exact ⟨rest, rfl, rfl⟩

/-- A `get` that changes the byte has stored it. -/
theorem good_of_get_ne {c b : UInt8} {is is' : IStream} (h : is.get c = (b, is')) (hne : b ≠ c) :
    is'.good = true := by
  unfold get at h
  split_ifs at h with hbad
  · exact absurd (Prod.mk.inj h).1.symm hne
  · cases hrest : is.rest with
    | nil =>
      rw [hrest] at h
      exact absurd (Prod.mk.inj h).1.symm hne
    | cons b' rest =>
      rw [hrest] at h
      obtain ⟨-, rfl⟩ := Prod.mk.inj h
      simpa [good] using hbad

theorem read_ok {n : ℕ} {data : List UInt8} {is is' : IStream} (h : is.read n = (data, is'))
    (hgood : is'.good = true) :
    data.length = n ∧ ∃ rest, is = ⟨data ++ rest, false, false⟩ ∧ is' = ⟨rest, false, false⟩ := by
  obtain ⟨bytes, eofbit, failbit⟩ := is
  unfold read at h
  split_ifs at h with hbad hshort
  · obtain ⟨rfl, rfl⟩ := Prod.mk.inj h
    simp [good, setFail] at hgood
  · obtain ⟨rfl, rfl⟩ := Prod.mk.inj h
    simp [good] at hgood
  · have hok : eofbit = false ∧ failbit = false := by simpa [good] using hbad
    obtain ⟨rfl, rfl⟩ := hok
    obtain ⟨rfl, rfl⟩ := Prod.mk.inj h
    refine ⟨?_, bytes.drop n, by rw [List.take_append_drop], rfl⟩
    rw [List.length_take]
    exact min_eq_left (not_lt.mp hshort)

end IStream
