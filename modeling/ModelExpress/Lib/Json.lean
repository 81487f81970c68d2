/-
  JSON text, as `json.dumps` writes it with `ensure_ascii=False` and without blanks.
-/
import Mathlib.Tactic.IntervalCases
import ModelExpress.Lib.Text

namespace Json

open List

def hexDigit (n : ℕ) : Char := Nat.digitChar n

/-- A character inside a quoted string. -/
def escape (c : Char) : List Char :=
  if c = '"' then ['\\', '"']
  else if c = '\\' then ['\\', '\\']
  else if c = '\n' then ['\\', 'n']
  else if c = '\r' then ['\\', 'r']
  else if c = '\t' then ['\\', 't']
  else if c = '\x0c' then ['\\', 'f']
  else if c = '\x08' then ['\\', 'b']
  else if c.toNat < 32 then ['\\', 'u', '0', '0', hexDigit (c.toNat / 16), hexDigit (c.toNat % 16)]
  else [c]

def quote (s : String) : String := String.ofList ('"' :: s.toList.flatMap escape ++ ['"'])

def array (items : List String) : String := "[" ++ Text.join ',' items ++ "]"

def hexValue (c : Char) : ℕ := if c.isDigit then c.toNat - 48 else c.toNat - 87

/-- One character of a quoted string, and what follows it. -/
def unescape : List Char → Option (Char × List Char)
  | '\\' :: 'u' :: '0' :: '0' :: a :: b :: l => some (Char.ofNat (16 * hexValue a + hexValue b), l)
  | '\\' :: 'n' :: l => some ('\n', l)
  | '\\' :: 'r' :: l => some ('\r', l)
  | '\\' :: 't' :: l => some ('\t', l)
  | '\\' :: 'f' :: l => some ('\x0c', l)
  | '\\' :: 'b' :: l => some ('\x08', l)
  | '\\' :: c :: l => some (c, l)
  | c :: l => some (c, l)
  | [] => none

theorem unescape_escape (c : Char) (l : List Char) : unescape (escape c ++ l) = some (c, l) := by
  unfold escape
  split_ifs with h₁ h₂ h₃ h₄ h₅ h₆ h₇ h₈
  iterate 7 subst_vars; rfl
  · have hcontrol : ∀ n < 32, unescape (['\\', 'u', '0', '0', hexDigit (n / 16), hexDigit (n % 16)] ++ l) =
        some (Char.ofNat n, l) := by
      intro n hn
      interval_cases n <;> rfl
    rw [hcontrol _ h₈, Char.ofNat_toNat]
  · simp [unescape, h₂]

variable {l l' : List Char}

theorem escape_cut {c c' : Char} (h : escape c ++ l = escape c' ++ l') : c = c' ∧ l = l' := by
  have hread := congrArg unescape h
  rw [unescape_escape, unescape_escape] at hread
  simpa using hread

theorem escape_ne_quote {c : Char} (h : '"' :: l = escape c ++ l') : False := by
  have hread := congrArg unescape h
  rw [unescape_escape] at hread
  obtain ⟨rfl, -⟩ : '"' = c ∧ l = l' := by simpa [unescape] using hread
  cases h

theorem escapes_cut : ∀ {s s' l l' : List Char}, s.flatMap escape ++ '"' :: l = s'.flatMap escape ++ '"' :: l' →
    s = s' ∧ l = l'
  | [], [], l, l', h => by simpa using h
  | [], c :: s', l, l', h => by
    rw [flatMap_cons, append_assoc] at h
    exact (escape_ne_quote h).elim
  | c :: s, [], l, l', h => by
    rw [flatMap_cons, append_assoc] at h
    exact (escape_ne_quote h.symm).elim
  | c :: s, c' :: s', l, l', h => by
    rw [flatMap_cons, flatMap_cons, append_assoc, append_assoc] at h
    obtain ⟨rfl, hrest⟩ := escape_cut h
    obtain ⟨rfl, hl⟩ := escapes_cut hrest
    exact ⟨rfl, hl⟩

theorem toList_quote (s : String) : (quote s).toList = '"' :: (s.toList.flatMap escape ++ ['"']) :=
  String.toList_ofList

theorem quote_cut {s s' : String} (h : (quote s).toList ++ l = (quote s').toList ++ l') : s = s' ∧ l = l' := by
  have hchars : s.toList.flatMap escape ++ '"' :: l = s'.toList.flatMap escape ++ '"' :: l' := by
    simpa [toList_quote] using h
  obtain ⟨hs, hl⟩ := escapes_cut hchars
  exact ⟨String.toList_inj.1 hs, hl⟩

theorem array_quote_inj {s s' x x' : String} {items items' : List String}
    (h : array (quote s :: x :: items) = array (quote s' :: x' :: items')) : s = s' := by
  have hchars := congrArg String.toList h
  simp only [array, String.toList_append, Text.toList_join_cons_cons, append_assoc] at hchars
  exact (quote_cut (append_cancel_left hchars)).1

end Json
