import RecordLayout.Proofs.MemberList
import Mathlib

/-!
# Declarators that were put together

A declarator is cut at the first position behind which it is a suffix. So an identifier comes back as it
is if no end of it, with the suffix behind it, is a suffix too (`splitDeclarator_append`). A length in
brackets with a semicolon can follow any identifier (`parsed_array`), but a semicolon alone cannot follow
one that itself ends in a length (`parsed_scalar`).
-/

namespace RecordLayout

theorem Text.natOfDigits_toDigits (n : Nat) : natOfDigits (Nat.toDigits 10 n) = n :=
  Nat.ofDigitChars_ten_toDigits

namespace Suffix

variable {cs ds identifier : List Char} {n : Int} {suffix : Suffix}

/-- The characters of a number: an optional minus and decimal digits. -/
def IsNumber (cs : List Char) : Prop :=
  ∃ minus ds, cs = minus ++ ds ∧ (minus = [] ∨ minus = ['-']) ∧ ds ≠ [] ∧ ∀ d ∈ ds, d.isDigit = true

theorem isNumber_of_number? (h : number? cs = some n) : IsNumber cs := by
  unfold number? at h
  split at h
  · next ds =>
    split at h
    · next hd => exact ⟨['-'], ds, rfl, .inr rfl, by simpa using hd⟩
    · cases h
  · split at h
    · next hd => exact ⟨[], _, rfl, .inl rfl, by simpa using hd⟩
    · cases h

theorem number?_digits (hne : ds ≠ []) (hd : ∀ d ∈ ds, d.isDigit = true) :
    number? ds = some (Text.natOfDigits ds) := by
  unfold number?
  split
  · exact absurd (hd '-' List.mem_cons_self) (by decide)
  · rw [if_pos (by simpa using ⟨hne, hd⟩)]
    rfl

theorem number?_toDigits (n : Nat) : number? (Nat.toDigits 10 n) = some n := by
  have hdigit : ∀ d ∈ Nat.toDigits 10 n, d.isDigit = true := fun d hd =>
    Nat.isDigit_of_mem_toDigits (by decide) (by decide) hd
  rw [number?_digits Nat.toDigits_ne_nil hdigit, Text.natOfDigits_toDigits]

theorem IsNumber.not_mem (h : IsNumber cs) {c : Char} (hc : c ≠ '-') (hd : c.isDigit = false) : c ∉ cs := by
  obtain ⟨minus, ds, rfl, hm, -, hds⟩ := h
  intro hmem
  rcases List.mem_append.mp hmem with hmem | hmem
  · rcases hm with rfl | rfl
    · cases hmem
    · exact hc (List.mem_singleton.mp hmem)
  · rw [hds c hmem] at hd
    cases hd

/-- The text of a length in brackets. -/
def bracketed (ds : List Char) : List Char := '[' :: ds ++ [']']

theorem ofChars?_cases (h : ofChars? cs = some suffix) :
    cs = [] ∨ cs = [';'] ∨ ∃ ds, IsNumber ds ∧ (cs = bracketed ds ∨ cs = bracketed ds ++ [';']) := by
  unfold ofChars? at h
  split at h
  · exact .inl rfl
  · exact .inr (.inl rfl)
  · next rest =>
    have hrest : rest.takeWhile (· != ']') ++ rest.dropWhile (· != ']') = rest :=
      List.takeWhile_append_dropWhile
    refine .inr (.inr ⟨rest.takeWhile (· != ']'), ?_⟩)
    split at h
    · next hd =>
      obtain ⟨n, hn, -⟩ := Option.map_eq_some_iff.mp h
      refine ⟨isNumber_of_number? hn, .inl ?_⟩
      rw [bracketed, List.cons_append, ← hd, hrest]
    · next hd =>
      obtain ⟨n, hn, -⟩ := Option.map_eq_some_iff.mp h
      refine ⟨isNumber_of_number? hn, .inr ?_⟩
      rw [bracketed, List.append_assoc, List.singleton_append, List.cons_append, ← hd, hrest]
    · cases h
  · cases h

theorem IsNumber.span (h : IsNumber ds) (rest : List Char) :
    (ds ++ ']' :: rest).takeWhile (· != ']') = ds ∧ (ds ++ ']' :: rest).dropWhile (· != ']') = ']' :: rest := by
  have hink : ∀ d ∈ ds, (d != ']') = true := by
    intro d hd
    rw [bne_iff_ne]
    rintro rfl
    exact h.not_mem (by decide) (by decide) hd
  rw [List.takeWhile_append_of_pos hink, List.dropWhile_append_of_pos hink]
  simp

theorem ofChars?_open (h : number? ds = some n) : ofChars? (bracketed ds) = some ⟨some n, false⟩ := by
  obtain ⟨htake, hdrop⟩ := (isNumber_of_number? h).span []
  rw [bracketed, List.cons_append, ofChars?, hdrop, htake, h]
  rfl

theorem ofChars?_closed (h : number? ds = some n) : ofChars? (bracketed ds ++ [';']) = some ⟨some n, true⟩ := by
  obtain ⟨htake, hdrop⟩ := (isNumber_of_number? h).span [';']
  rw [bracketed, List.append_assoc, List.singleton_append, List.cons_append, ofChars?, hdrop, htake, h]
  rfl

/-- The identifier ends in a length, so that it is one of an array without a semicolon. -/
def EndsInLength (identifier : List Char) : Prop :=
  ∃ lead ds, identifier = lead ++ bracketed ds ∧ IsNumber ds

theorem EndsInLength.getLast? (h : EndsInLength identifier) : identifier.getLast? = some ']' := by
  obtain ⟨lead, ds, rfl, -⟩ := h
  rw [bracketed, ← List.append_assoc, List.getLast?_concat]

/-- A declarator is cut in front of a suffix if it cannot be cut earlier. -/
theorem splitDeclarator_append (hs : ofChars? cs = some suffix)
    (hi : ∀ last, last ≠ [] → last <:+ identifier → ofChars? (last ++ cs) = none) :
    splitDeclarator (identifier ++ cs) = (identifier, suffix) := by
  induction identifier with
  | nil =>
    cases cs with
    | nil =>
      cases hs
      rfl
    | cons c cs => rw [List.nil_append, splitDeclarator, hs]
  | cons c identifier ih =>
    have hnone : ofChars? (c :: (identifier ++ cs)) = none := hi _ (List.cons_ne_nil _ _) List.suffix_rfl
    rw [List.cons_append, splitDeclarator, hnone,
      ih fun last hne hl => hi last hne (hl.trans (List.suffix_cons _ _))]

theorem eq_bracketed_of_ofChars? (hne : cs ≠ []) (h : ofChars? (cs ++ [';']) = some suffix) :
    ∃ ds, IsNumber ds ∧ cs = bracketed ds := by
  rcases ofChars?_cases h with hnil | hsemi | ⟨ds, hd, hopen | hclosed⟩
  · simp at hnil
  · simp [hne] at hsemi
  · exact absurd (List.append_inj_right' hopen rfl) (by decide)
  · exact ⟨ds, hd, List.append_cancel_right hclosed⟩

theorem splitDeclarator_scalar (h : ¬EndsInLength identifier) :
    splitDeclarator (identifier ++ [';']) = (identifier, ⟨none, true⟩) := by
  refine splitDeclarator_append rfl fun last hne hl => ?_
  cases hs : ofChars? (last ++ [';']) with
  | none => rfl
  | some suffix =>
    obtain ⟨ds, hd, rfl⟩ := eq_bracketed_of_ofChars? hne hs
    obtain ⟨lead, hlead⟩ := hl
    exact absurd ⟨lead, ds, hlead.symm, hd⟩ h

theorem splitDeclarator_array (identifier : List Char) (h : number? ds = some n) :
    splitDeclarator (identifier ++ (bracketed ds ++ [';'])) = (identifier, ⟨some n, true⟩) := by
  refine splitDeclarator_append (ofChars?_closed h) fun last hne hl => ?_
  cases hs : ofChars? (last ++ (bracketed ds ++ [';'])) with
  | none => rfl
  | some suffix =>
    exfalso
    rw [← List.append_assoc] at hs
    obtain ⟨ds', hd, heq⟩ := eq_bracketed_of_ofChars? (List.append_ne_nil_of_left_ne_nil hne _) hs
    -- the bracket of the second length would stand in the number of the first
    cases last with
    | nil => exact hne rfl
    | cons c last =>
      have hds : last ++ '[' :: ds = ds' := by
        simp only [bracketed, List.cons_append, List.cons.injEq] at heq
        rw [← List.cons_append, ← List.append_assoc] at heq
        exact List.append_cancel_right heq.2
      refine hd.not_mem (c := '[') (by decide) (by decide) ?_
      rw [← hds]
      exact List.mem_append_right _ List.mem_cons_self

theorem maxLength_eq : maxLength = 2 ^ 63 - 1 := rfl

/-- The length is none that an array can have. -/
def OutOfRange (s : Suffix) : Prop := ∃ n, s.length = some n ∧ (n < 0 ∨ 2 ^ 63 - 1 < n)

/-- The number of elements; a length counts only with a semicolon behind it. -/
def count : Suffix → Option Nat
  | ⟨some n, true⟩ => some n.toNat
  | _ => none

end Suffix

namespace Declarator

open Suffix

variable {identifier token : String} {line : Nat} {cs : List Char} {s : Suffix}

theorem parsed_of_nil (h : splitDeclarator token.toList = ([], s)) :
    parsed token line = .error (.malformedMember line token) := by
  rw [parsed, read, h]
  rfl

theorem parsed_of_outOfRange (h : splitDeclarator token.toList = (cs, s)) (hne : cs ≠ []) (hs : s.OutOfRange) :
    parsed token line = .error (.invalidArraySize token line) := by
  obtain ⟨n, hn, hr⟩ := hs
  have hcs : String.ofList cs ≠ "" := by simpa using hne
  rw [parsed, read, h]
  dsimp only
  rw [if_neg hcs, hn]
  dsimp only
  rw [maxLength_eq, if_pos hr]
  rfl

theorem parsed_of_inRange (h : splitDeclarator token.toList = (cs, s)) (hne : cs ≠ []) (hs : ¬s.OutOfRange) :
    parsed token line = .ok ⟨String.ofList cs, s.count⟩ := by
  have hcs : String.ofList cs ≠ "" := by simpa using hne
  rw [parsed, read, h]
  dsimp only
  rw [if_neg hcs]
  match s with
  | ⟨none, _⟩ => rfl
  | ⟨some n, closed⟩ =>
    have hr : ¬(n < 0 ∨ 2 ^ 63 - 1 < n) := fun hr => hs ⟨n, rfl, hr⟩
    dsimp only
    rw [maxLength_eq, if_neg hr]
    cases closed <;> rfl

theorem parsed_scalar (hi : identifier ≠ "") (h : ¬EndsInLength identifier.toList) :
    parsed (identifier ++ ";") line = .ok ⟨identifier, none⟩ := by
  have hsplit : splitDeclarator (identifier ++ ";").toList = (identifier.toList, ⟨none, true⟩) := by
    rw [String.toList_append, show ";".toList = [';'] from rfl, splitDeclarator_scalar h]
  rw [parsed_of_inRange hsplit (by simpa using hi) (by simp [OutOfRange]), String.ofList_toList]
  rfl

theorem parsed_array {n : Nat} (hi : identifier ≠ "") (hn : n < 2 ^ 63) :
    parsed (identifier ++ "[" ++ toString n ++ "];") line = .ok ⟨identifier, some n⟩ := by
  have htoken : (identifier ++ "[" ++ toString n ++ "];").toList =
      identifier.toList ++ (bracketed (Nat.toDigits 10 n) ++ [';']) := by
    simp [bracketed, Nat.toString_eq_repr, Nat.toList_repr]
  have hsplit := htoken ▸ splitDeclarator_array identifier.toList (number?_toDigits n)
  have hrange : ¬OutOfRange ⟨some (n : Int), true⟩ := by
    rintro ⟨m, hm, hr⟩
    cases hm
    omega
  rw [parsed_of_inRange hsplit (by simpa using hi) hrange, String.ofList_toList]
  rfl

end Declarator

end RecordLayout
