import Uwu.Proofs.Grammar.Words

/-! What is written of a literal or a text is read back as it. -/

namespace Uwu.Grammar

open Lexeme

/-! ### Numbers -/

theorem decimal?_toDigits (n : Nat) : decimal? (Nat.toDigits 10 n) = some n := by
  have hne : (Nat.toDigits 10 n).isEmpty = false := by
    rw [List.isEmpty_eq_false_iff]
    exact Nat.toDigits_ne_nil
  have hall : (Nat.toDigits 10 n).all Char.isDigit = true :=
    List.all_eq_true.mpr fun c hc => Nat.isDigit_of_mem_toDigits (by decide) (by decide) hc
  rw [decimal?, hne, hall, ← Nat.ofDigitChars_eq_foldl]
  simp

theorem intLiteral?_toString {n : Nat} (h : n ≤ maxInt) :
    intLiteral? (toString n).toList = some (.int n) := by
  rw [Nat.toString_eq_repr, Nat.toList_repr, intLiteral?, decimal?_toDigits]
  simp [h]

/-! ### Texts -/

theorem unescape_escapeChar (c : Char) (cs : List Char) :
    unescape (escapeChar c ++ cs) = c :: unescape cs := by
  unfold escapeChar
  split
  case h_6 => simp [unescape]
  all_goals rfl

theorem unescape_escape (text : String) : unescape (escape text) = text.toList := by
  rw [escape]
  induction text.toList with
  | nil => rfl
  | cons c cs ih => rw [List.flatMap_cons, unescape_escapeChar, ih]

theorem escape_eq_nil {text : String} : escape text = [] ↔ text = "" := by
  constructor
  · intro h
    have hnil := unescape_escape text
    rw [h, unescape] at hnil
    exact String.toList_eq_nil_iff.mp hnil.symm
  · rintro rfl
    rfl

theorem undelimited_delimited (first last : Char) (text : String) :
    undelimited first last (delimited first last text).toList = escape text := by
  simp [undelimited, delimited]

theorem textSegment_delimited {first last : Char} {t : Token} {text : String}
    (ht : t.lexeme = delimited first last text) :
    textSegment first last t = if text = "" then [] else [.text text] := by
  rw [textSegment, ht, undelimited_delimited]
  split
  next h => simp [escape_eq_nil.mp h]
  next h =>
    have hne : text ≠ "" := fun he => h (escape_eq_nil.mpr he)
    rw [if_neg hne, unescape_escape, String.ofList_toList]

/-- A literal is read back from its word. -/
theorem literalOf?_word {h : Hand} {v : Literal} (hv : h.Spells v) {t : Token}
    (ht : t.word = h.literal v) : literalOf? t = some v := by
  have hk : t.kind = (h.literal v).kind := congrArg Word.kind ht
  have hl : t.lexeme = (h.literal v).lexeme := congrArg Word.lexeme ht
  cases v with
  | int n => rw [literalOf?, hk, hl]; exact intLiteral?_toString hv
  | float bits => rw [literalOf?, hk, hl]; exact hv
  | str s =>
    have hs : stringLiteral (delimited '"' '"' s).toList = .str s := by
      rw [stringLiteral, undelimited_delimited, unescape_escape, String.ofList_toList]
    rw [literalOf?, hk, hl]
    exact congrArg some hs
  | bool b => cases b <;> rw [literalOf?, hk] <;> rfl
  | nuww => rw [literalOf?, hk]; rfl

end Uwu.Grammar
