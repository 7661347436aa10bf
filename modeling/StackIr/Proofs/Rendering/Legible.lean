import StackIr.Proofs.Json.Nesting
import StackIr.Proofs.Yaml.Cursor
import StackIr.Yaml.Encoding
import StackIr.Yaml.Node
import StackIr.Yaml.Presentation
import StackIr.Yaml.Token.Scanner

/-! # What both renderings say

    A representation is rendered as JSON, and the YAML rendering is made by reading that text
    and writing it again.  `Says` relates a node to the JSON document that it says.  Not every
    document comes through: `legible` holds of those that do, and each of its conditions is
    there because the reader or the printer does something else with the rest. -/

namespace StackIr

namespace Json

/-! ## Legible documents -/

/-- The characters that are read as they were written.  The others below a space are escaped,
    and those that are not allowed are refused.  The next line character is read as a space. -/
def legibleChar (c : Char) : Bool :=
  c.toNat < 0x20 || (Yaml.isAllowed c && c.toNat != 0x85)

/-- A text that would be written as a literal block and starts with a break, which is lost, or
    with a tab, which cannot be read. -/
def startsBadly (cs : List Char) : Bool :=
  cs.contains '\n' && Yaml.Presentation.blockAllowed cs &&
    cs.head?.any fun c => Yaml.isBreak c || c == '\t'

/-- The texts that come through.  Two angle brackets are written plain and read as a merge
    key. -/
def legibleText (s : String) : Bool :=
  s.toList.all legibleChar && s != "<<" && !startsBadly s.toList

/-- The keys that come through: JSON text longer than 1024 characters is no key. -/
def legibleKey (s : String) : Bool :=
  legibleText s && (stringText .safe s).length ≤ 1024

mutual

/-- The documents that come through. -/
def legible : Json → Bool
  | .string s => legibleText s
  | .array items => legibleItems items
  | .object members => legibleMembers members
  | _ => true

def legibleItems : List Json → Bool
  | [] => true
  | item :: items => legible item && legibleItems items

def legibleMembers : List (String × Json) → Bool
  | [] => true
  | (key, value) :: members => legibleKey key && legible value && legibleMembers members

end

/-! ## Words -/

/-- The characters of nulls, booleans and numbers. -/
def isWordChar (c : Char) : Bool :=
  c.isAlphanum || c == '-' || c == '+' || c == '.'

/-- A text that JSON writes without quotes. -/
structure IsWord (w : List Char) : Prop where
  chars : ∀ c ∈ w, isWordChar c = true
  start : ∃ c rest, w = c :: rest ∧ (c.isAlphanum = true ∨
    c = '-' ∧ ∃ d more, rest = d :: more ∧ d.isAlphanum = true)

theorem isAlphanum_of_isDigit {c : Char} (h : c.isDigit = true) : c.isAlphanum = true := by
  simp [Char.isAlphanum, h]

theorem isWordChar_of_isDigit {c : Char} (h : c.isDigit = true) : isWordChar c = true := by
  simp [isWordChar, isAlphanum_of_isDigit h]

theorem isWord_null : IsWord "null".toList :=
  ⟨List.all_iff_forall_prop.1 (by decide), 'n', _, rfl, .inl (by decide)⟩

theorem isWord_bool (b : Bool) : IsWord (if b then "true".toList else "false".toList) := by
  cases b
  · exact ⟨List.all_iff_forall_prop.1 (by decide), 'f', _, rfl, .inl (by decide)⟩
  · exact ⟨List.all_iff_forall_prop.1 (by decide), 't', _, rfl, .inl (by decide)⟩

/-- A word without a sign. -/
structure IsUnsigned (w : List Char) : Prop where
  chars : ∀ c ∈ w, isWordChar c = true
  start : ∃ c rest, w = c :: rest ∧ c.isAlphanum = true

section

variable {w : List Char}

theorem IsUnsigned.isWord (h : IsUnsigned w) : IsWord w := by
  obtain ⟨c, rest, rfl, hc⟩ := h.start
  exact ⟨h.chars, c, rest, rfl, .inl hc⟩

theorem IsUnsigned.negative (h : IsUnsigned w) : IsWord ('-' :: w) := by
  obtain ⟨c, rest, rfl, hc⟩ := h.start
  exact ⟨List.forall_mem_cons.2 ⟨by decide, h.chars⟩, '-', c :: rest, rfl, .inr ⟨rfl, c, rest, rfl, hc⟩⟩

theorem IsUnsigned.append {more : List Char} (h : IsUnsigned w)
    (hmore : ∀ c ∈ more, isWordChar c = true) : IsUnsigned (w ++ more) := by
  obtain ⟨c, rest, rfl, hc⟩ := h.start
  exact ⟨List.forall_mem_append.2 ⟨h.chars, hmore⟩, c, rest ++ more, rfl, hc⟩

theorem isUnsigned_of_isDigit (hne : w ≠ []) (h : ∀ c ∈ w, c.isDigit = true) : IsUnsigned w := by
  obtain ⟨c, rest, rfl⟩ := List.exists_cons_of_ne_nil hne
  exact ⟨fun d hd => isWordChar_of_isDigit (h d hd), c, rest, rfl,
    isAlphanum_of_isDigit (h c (List.mem_cons_self ..))⟩

end

theorem isDigit_of_mem_toDigits {n : Nat} : ∀ c ∈ Nat.toDigits 10 n, c.isDigit = true :=
  fun _ hc => Nat.isDigit_of_mem_toDigits (by decide) (by decide) hc

theorem isWord_intText (i : Int) : IsWord (intText i) := by
  have hdigits : IsUnsigned (Nat.toDigits 10 i.natAbs) :=
    isUnsigned_of_isDigit Nat.toDigits_ne_nil isDigit_of_mem_toDigits
  unfold intText
  split
  · exact hdigits.negative
  · exact hdigits.isWord

section

open Decimal

theorem isDigit_shortest (m : Nat) (q : Int) : ∀ c ∈ (shortest m q).digits, c.isDigit = true := by
  intro c hc
  have hmem : c ∈ Nat.toDigits 10 ((Rounding.of m q).search 17
      (Rounding.of m q).value.scientificExponent).1 := by
    have := List.mem_reverse.1 hc
    exact List.mem_reverse.1 ((List.dropWhile_sublist _).subset this)
  exact isDigit_of_mem_toDigits c hmem

variable {s : Scientific}

theorem isDigit_of_mem_zeros {n : Nat} : ∀ c ∈ List.replicate n '0', c.isDigit = true := by
  intro c hc
  rw [List.eq_of_mem_replicate hc]
  decide

theorem isUnsigned_plain (hdigits : ∀ c ∈ s.digits, c.isDigit = true) : IsUnsigned s.plain := by
  unfold Scientific.plain
  split
  · have hzero : IsUnsigned ['0'] := isUnsigned_of_isDigit (by simp)
      (List.all_iff_forall_prop.1 (by decide))
    have hmore : ∀ c ∈ List.replicate ((-s.exponent).toNat - 1) '0' ++ s.digits, c.isDigit = true :=
      List.forall_mem_append.2 ⟨isDigit_of_mem_zeros, hdigits⟩
    exact hzero.append
      (List.forall_mem_cons.2 ⟨by decide, fun c hc => isWordChar_of_isDigit (hmore c hc)⟩)
  · have hall : ∀ c ∈ s.digits ++ List.replicate (s.exponent.toNat + 1 - s.digits.length) '0',
        c.isDigit = true := List.forall_mem_append.2 ⟨hdigits, isDigit_of_mem_zeros⟩
    have hne : s.digits ++ List.replicate (s.exponent.toNat + 1 - s.digits.length) '0' ≠ [] := by
      intro hnil
      have hlength := congrArg List.length hnil
      rw [List.length_append, List.length_replicate, List.length_nil] at hlength
      omega
    dsimp only
    generalize s.digits ++ List.replicate (s.exponent.toNat + 1 - s.digits.length) '0' = ds
      at hall hne
    split
    · exact isUnsigned_of_isDigit hne hall
    · have hwhole : IsUnsigned (ds.take (s.exponent.toNat + 1)) :=
        isUnsigned_of_isDigit (by simpa using hne) fun c hc => hall c (List.mem_of_mem_take hc)
      exact hwhole.append (List.forall_mem_cons.2
        ⟨by decide, fun c hc => isWordChar_of_isDigit (hall c (List.mem_of_mem_drop hc))⟩)

/-- Without digits the text starts with the letter of the exponent. -/
theorem isUnsigned_withExponent (width : Nat) (hdigits : ∀ c ∈ s.digits, c.isDigit = true) :
    IsUnsigned (s.withExponent width) := by
  have hpower : ∀ c ∈ List.replicate (width - (Nat.toDigits 10 s.exponent.natAbs).length) '0' ++
      Nat.toDigits 10 s.exponent.natAbs, c.isDigit = true :=
    List.forall_mem_append.2 ⟨isDigit_of_mem_zeros, isDigit_of_mem_toDigits⟩
  have hexponent : IsUnsigned ('e' :: (if s.exponent < 0 then '-' else '+') ::
      (List.replicate (width - (Nat.toDigits 10 s.exponent.natAbs).length) '0' ++
        Nat.toDigits 10 s.exponent.natAbs)) := by
    refine ⟨List.forall_mem_cons.2 ⟨by decide, List.forall_mem_cons.2 ⟨?_, ?_⟩⟩, 'e', _, rfl, by decide⟩
    · split <;> decide
    · exact fun c hc => isWordChar_of_isDigit (hpower c hc)
  unfold Scientific.withExponent
  cases hs : s.digits with
  | nil => exact hexponent
  | cons d rest =>
    rw [hs] at hdigits
    obtain ⟨hd, hrest⟩ := List.forall_mem_cons.1 hdigits
    have hfirst : IsUnsigned [d] := isUnsigned_of_isDigit (by simp) (by simpa using hd)
    cases rest with
    | nil => exact hfirst.append hexponent.chars
    | cons e rest =>
      have hfraction : ∀ c ∈ e :: rest, isWordChar c = true :=
        fun c hc => isWordChar_of_isDigit (hrest c hc)
      exact hfirst.append (List.forall_mem_cons.2
        ⟨by decide, List.forall_mem_append.2 ⟨hfraction, hexponent.chars⟩⟩)

theorem isUnsigned_positive (l : Layout) (hdigits : ∀ c ∈ s.digits, c.isDigit = true) :
    IsUnsigned (l.positive s) := by
  unfold Layout.positive
  split
  · exact isUnsigned_plain hdigits
  · exact isUnsigned_withExponent l.exponentWidth hdigits

theorem isWord_render {x : Binary64} (h : x.isFinite = true) :
    IsWord (Layout.json.render x).toList := by
  have hunsigned : ∀ (m : Nat) (q : Int),
      IsUnsigned (if m = 0 then ['0'] else Layout.json.positive (shortest m q)) := by
    intro m q
    split
    · exact isUnsigned_of_isDigit (by simp) (List.all_iff_forall_prop.1 (by decide))
    · exact isUnsigned_positive Layout.json (isDigit_shortest m q)
  unfold Binary64.isFinite at h
  unfold Layout.render
  split at h
  · rename_i negative m q hmeaning
    rw [hmeaning]
    dsimp only
    rw [String.toList_ofList]
    cases negative with
    | false => exact (hunsigned m q).isWord
    | true => exact (hunsigned m q).negative
  · cases h

end

/-- The ranges of the characters of words. -/
theorem toNat_of_isWordChar {c : Char} (h : isWordChar c = true) :
    (48 ≤ c.toNat ∧ c.toNat ≤ 57) ∨ (65 ≤ c.toNat ∧ c.toNat ≤ 90) ∨
      (97 ≤ c.toNat ∧ c.toNat ≤ 122) ∨ c.toNat = 43 ∨ c.toNat = 45 ∨ c.toNat = 46 := by
  have hclasses : c.isAlphanum = (decide (65 ≤ c.val ∧ c.val ≤ 90) ||
      decide (97 ≤ c.val) && decide (c.val ≤ 122) ||
      decide (48 ≤ c.val) && decide (c.val ≤ 57)) := rfl
  simp only [isWordChar, hclasses, Bool.or_eq_true, Bool.and_eq_true, decide_eq_true_eq, beq_iff_eq,
    UInt32.le_iff_toNat_le] at h
  have hval : c.val.toNat = c.toNat := rfl
  simp only [hval] at h
  rcases h with ((((h | h) | h) | rfl) | rfl) | rfl
  · exact .inr (.inl h)
  · exact .inr (.inr (.inl h))
  · exact .inl h
  all_goals decide

/-- A character of a word is no character whose number is not among theirs. -/
theorem ne_of_isWordChar {c d : Char} (h : isWordChar c = true) (hd : isWordChar d = false) :
    c ≠ d := by
  rintro rfl
  rw [h] at hd
  cases hd

theorem isBlank_of_isWordChar {c : Char} (h : isWordChar c = true) : Yaml.isBlank c = false := by
  simp [Yaml.isBlank, ne_of_isWordChar h (show isWordChar ' ' = false by decide),
    ne_of_isWordChar h (show isWordChar '\t' = false by decide)]

theorem isBreak_of_isWordChar {c : Char} (h : isWordChar c = true) : Yaml.isBreak c = false := by
  have hrange := toNat_of_isWordChar h
  have hnext : c.toNat ≠ 0x85 := by omega
  have hline : c.toNat ≠ 0x2028 := by omega
  have hparagraph : c.toNat ≠ 0x2029 := by omega
  simp [Yaml.isBreak, ne_of_isWordChar h (show isWordChar '\n' = false by decide),
    ne_of_isWordChar h (show isWordChar '\r' = false by decide), hnext, hline, hparagraph]

end Json

end StackIr
