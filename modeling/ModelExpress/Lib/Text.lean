/-
  Delimited text and decimal numbers.
-/
import ModelExpress.Lib.Framing

namespace Text

open List

/-! ## Delimiters -/

def split (c : Char) (s : String) : List String := (s.toList.splitOn c).map String.ofList

def join (c : Char) (parts : List String) : String :=
  String.ofList ([c].intercalate (parts.map String.toList))

variable {c : Char} {parts : List String} {d : Char}

theorem split_join (hne : parts ≠ []) (hfree : ∀ p ∈ parts, c ∉ p.toList) : split c (join c parts) = parts := by
  have hfree' : ∀ l ∈ parts.map String.toList, c ∉ l := by
    intro l hl
    obtain ⟨p, hp, rfl⟩ := mem_map.1 hl
    exact hfree p hp
  rw [split, join, String.toList_ofList, splitOn_intercalate c hfree' (by simpa using hne),
    map_map]
  exact map_id'' (fun p => String.ofList_toList) parts

theorem toList_join_cons_cons (c : Char) (p q : String) (parts : List String) :
    (join c (p :: q :: parts)).toList = p.toList ++ c :: (join c (q :: parts)).toList := by
  rw [join, String.toList_ofList, join, String.toList_ofList]
  rfl

theorem mem_join (h : d ∈ (join c parts).toList) : d = c ∨ ∃ p ∈ parts, d ∈ p.toList := by
  induction parts with
  | nil => cases h
  | cons p parts ih =>
    cases parts with
    | nil =>
      rw [join, String.toList_ofList, map_singleton, intercalate_singleton] at h
      exact Or.inr ⟨p, mem_cons_self .., h⟩
    | cons =>
      rw [toList_join_cons_cons, mem_append, mem_cons] at h
      rcases h with h | h | h
      · exact Or.inr ⟨p, mem_cons_self .., h⟩
      · exact Or.inl h
      · rcases ih h with h | ⟨r, hr, h⟩
        · exact Or.inl h
        · exact Or.inr ⟨r, mem_cons_of_mem _ hr, h⟩

theorem notMem_join (hd : d ≠ c) (hfree : ∀ p ∈ parts, d ∉ p.toList) : d ∉ (join c parts).toList := by
  intro h
  rcases mem_join h with h | ⟨p, hp, h⟩
  · exact hd h
  · exact hfree p hp h

theorem join_ne_empty (hne : parts ≠ []) (hp : ∀ p ∈ parts, p ≠ "") : join c parts ≠ "" := by
  obtain ⟨p, parts, rfl⟩ := exists_cons_of_ne_nil hne
  have hp₁ := hp p (mem_cons_self ..)
  intro h
  have hl := congrArg String.toList h
  rw [join, String.toList_ofList] at hl
  cases parts with
  | nil => exact hp₁ (by simpa [intercalate] using hl)
  | cons => simp [intercalate] at hl

/-! ## Prefixes and first fields -/

section
variable {start rest text first : List Char} {sep : Char}

/-- What follows `start` (Rust's `strip_prefix`). -/
def after? (start text : List Char) : Option (List Char) :=
  if start.isPrefixOf text then some (text.drop start.length) else none

@[simp] theorem after?_append : after? start (start ++ rest) = some rest := by
  simp [after?]

theorem after?_eq_none (h : ¬ start <+: text) : after? start text = none := by
  simp [after?, h]

/-- The text before the first `sep`, and the text after it. -/
def field? (sep : Char) (text : List Char) : Option (List Char × List Char) :=
  match text.dropWhile (· ≠ sep) with
  | _ :: rest => some (text.takeWhile (· ≠ sep), rest)
  | [] => none

theorem field?_append (h : sep ∉ first) : field? sep (first ++ sep :: rest) = some (first, rest) := by
  have hfirst : ∀ c ∈ first, decide (c ≠ sep) = true := fun c hc => by
    have hne : c ≠ sep := fun heq => h (heq ▸ hc)
    simpa using hne
  rw [field?, takeWhile_append_of_pos hfirst, dropWhile_append_of_pos hfirst]
  simp

end

/-! ## Decimal numbers -/

def decimal (n : ℕ) : String := n.repr

variable {n : ℕ} {a b a' b' : String} {bound : ℕ}

theorem isDigit_of_mem_decimal (h : c ∈ (decimal n).toList) : c.isDigit = true := by
  rw [decimal, Nat.toList_repr] at h
  exact Nat.isDigit_of_mem_toDigits (by decide) (by decide) h

theorem notMem_decimal (hc : c.isDigit = false) : c ∉ (decimal n).toList :=
  fun h => Bool.noConfusion (hc.symm.trans (isDigit_of_mem_decimal h))

def toNumber (s : String) : Option ℕ :=
  if s.toList ≠ [] ∧ s.toList.all Char.isDigit then some (Nat.ofDigitChars 10 s.toList 0) else none

@[simp] theorem toNumber_decimal (n : ℕ) : toNumber (decimal n) = some n := by
  have hd : (decimal n).toList.all Char.isDigit = true :=
    all_eq_true.2 fun c hc => isDigit_of_mem_decimal hc
  rw [toNumber, if_pos ⟨by rw [decimal, Nat.toList_repr]; exact Nat.toDigits_ne_nil, hd⟩, decimal,
    Nat.toList_repr, Nat.ofDigitChars_toDigits (by decide) (by decide)]

theorem decimal_inj {m : ℕ} (h : decimal m = decimal n) : m = n := by
  have hn := congrArg toNumber h
  rw [toNumber_decimal, toNumber_decimal] at hn
  exact Option.some.inj hn

/-- The digit loop of an integer parser: the digit is checked before the bound. -/
def parseDigits (bound : ℕ) : ℕ → List Char → Except String ℕ
  | acc, [] => .ok acc
  | acc, c :: cs =>
    if ¬ c.isDigit then .error "invalid digit found in string"
    else
      let acc := 10 * acc + (c.toNat - '0'.toNat)
      if acc < bound then parseDigits bound acc cs
      else .error "number too large to fit in target type"

/-- `parse` of an unsigned integer type with values below `bound`. -/
def parseUnsigned (bound : ℕ) (s : String) : Except String ℕ :=
  match s.toList with
  | [] => .error "cannot parse integer from empty string"
  | ['+'] => .error "invalid digit found in string"
  | '+' :: cs => parseDigits bound 0 cs
  | cs => parseDigits bound 0 cs

theorem le_ofDigitChars (cs : List Char) (acc : ℕ) : acc ≤ Nat.ofDigitChars 10 cs acc := by
  induction cs generalizing acc with
  | nil => exact Nat.le_refl acc
  | cons c cs ih =>
    rw [Nat.ofDigitChars_cons]
    exact le_trans (by omega) (ih _)

theorem parseDigits_eq_ok {cs : List Char} {acc : ℕ} (hd : ∀ c ∈ cs, c.isDigit = true)
    (hlt : Nat.ofDigitChars 10 cs acc < bound) :
    parseDigits bound acc cs = .ok (Nat.ofDigitChars 10 cs acc) := by
  induction cs generalizing acc with
  | nil => rfl
  | cons c cs ih =>
    rw [Nat.ofDigitChars_cons] at hlt ⊢
    have hacc := lt_of_le_of_lt (le_ofDigitChars cs _) hlt
    rw [parseDigits, if_neg (by simp [hd c (mem_cons_self ..)])]
    simp only
    rw [if_pos hacc]
    exact ih (fun d hm => hd d (mem_cons_of_mem _ hm)) hlt

theorem parseUnsigned_decimal (h : n < bound) : parseUnsigned bound (decimal n) = .ok n := by
  have hv : Nat.ofDigitChars 10 (decimal n).toList 0 = n := by
    rw [decimal, Nat.toList_repr, Nat.ofDigitChars_toDigits (by decide) (by decide)]
  have hp : parseDigits bound 0 (decimal n).toList = .ok n := by
    rw [parseDigits_eq_ok (fun c hc => isDigit_of_mem_decimal hc) (by rw [hv]; exact h), hv]
  have hplus : '+' ∉ (decimal n).toList := notMem_decimal (by decide)
  unfold parseUnsigned
  split
  next he =>
    rw [decimal, Nat.toList_repr] at he
    exact absurd he Nat.toDigits_ne_nil
  next he => exact absurd (he ▸ mem_cons_self ..) hplus
  next he => exact absurd (he ▸ mem_cons_self ..) hplus
  next => exact hp

/-! ## A text behind its length -/

theorem append_inj_of_size (h : a ++ b = a' ++ b') (hs : a.utf8ByteSize = a'.utf8ByteSize) : a = a' ∧ b = b' := by
  have hb := congrArg (fun s : String => s.toByteArray.data.toList) h
  simp only [String.toByteArray_append, ByteArray.data_append, Array.toList_append] at hb
  obtain ⟨h₁, h₂⟩ := append_inj hb hs
  exact ⟨String.toByteArray_inj.1 (ByteArray.ext (Array.toList_inj.1 h₁)),
    String.toByteArray_inj.1 (ByteArray.ext (Array.toList_inj.1 h₂))⟩

theorem lengthFramed_inj (h : decimal a.utf8ByteSize ++ ":" ++ a ++ b = decimal a'.utf8ByteSize ++ ":" ++ a' ++ b') :
    a = a' ∧ b = b' := by
  have hl : (decimal a.utf8ByteSize).toList ++ ':' :: (a ++ b).toList =
      (decimal a'.utf8ByteSize).toList ++ ':' :: (a' ++ b').toList := by
    simpa using congrArg String.toList h
  -- the digits have no colon, so the first one ends the number
  obtain ⟨hd, hrest⟩ := Framing.split_first (notMem_decimal (by decide)) (notMem_decimal (by decide)) hl
  exact append_inj_of_size (String.toList_inj.1 hrest) (decimal_inj (String.toList_inj.1 hd))

end Text
