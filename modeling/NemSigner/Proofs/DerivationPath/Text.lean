import Mathlib.Algebra.Group.Nat.Defs
import Mathlib.Data.List.Forall2
import NemSigner.TestVector.Basic

/-!
# The language of path texts

A text names path elements when it is an `m` and segments behind it, each a slash, perhaps a plus
sign, digits of a number below the highest bit, and perhaps an apostrophe. The digits are the low
bits of an element and the apostrophe is its highest one. The reader of paths takes these texts and
no others, and a printed path is one of them.

## Main definitions

- `PathText.Segment` — the parts of a segment
- `PathText.Segment.Denotes` — a segment stands for an element
- `PathText.Names` — a text stands for elements

## Main statements

- `PathText.pieces_iff`, `PathText.element?_iff` — where a text is cut, and what is read of a piece
- `PathText.parse?_iff` — the texts that are read
- `TestVector.elementsOfText_language` — and what becomes of all others
-/

namespace NemSigner

namespace Numeral

variable {text : List Char}

theorem digit?_eq (character : Char) : digit? character =
    if character.isDigit then some (character.toNat - '0'.toNat) else none :=
  rfl

/-- All of a text of digits is taken. -/
theorem take_of_digits (h : ∀ digit ∈ text, digit.isDigit = true) :
    take text = (text.map fun digit => digit.toNat - '0'.toNat, []) := by
  induction text with
  | nil => rfl
  | cons digit text ih =>
    obtain ⟨hdigit, htext⟩ := List.forall_mem_cons.mp h
    rw [take, digit?_eq, if_pos hdigit, ih htext]
    rfl

/-- When nothing is left over, all of the text are digits. -/
theorem isDigit_of_take {values : List Nat} (h : take text = (values, [])) :
    ∀ digit ∈ text, digit.isDigit = true := by
  induction text generalizing values with
  | nil => exact List.forall_mem_nil _
  | cons character text ih =>
    rw [take, digit?_eq] at h
    by_cases hdigit : character.isDigit = true
    · rw [if_pos hdigit] at h
      exact List.forall_mem_cons.mpr ⟨hdigit, ih (Prod.ext rfl (Prod.mk.inj h).2)⟩
    · rw [if_neg hdigit] at h
      cases (Prod.mk.inj h).2

/-- The digits of a text spell the number that they are read as. -/
theorem ofDigits_eq (text : List Char) :
    ofDigits (text.map fun digit => digit.toNat - '0'.toNat) = Nat.ofDigitChars 10 text 0 := by
  rw [ofDigits, List.foldl_map, Nat.ofDigitChars_eq_foldl]

end Numeral

namespace PathText

/-- The parts of a segment. -/
structure Segment where
  /-- Whether a plus sign stands in front of the digits. -/
  plus : Bool
  digits : List Char
  /-- Whether an apostrophe stands behind the digits. -/
  marked : Bool

namespace Segment

/-- A segment without the apostrophe. -/
def unmarked (segment : Segment) : List Char :=
  (if segment.plus then ['+'] else []) ++ segment.digits

/-- What stands behind the slash. -/
def body (segment : Segment) : List Char :=
  segment.unmarked ++ if segment.marked then [hardenedMark] else []

def text (segment : Segment) : List Char :=
  '/' :: segment.body

/-- The number that the digits spell. -/
def number (segment : Segment) : Nat :=
  Nat.ofDigitChars 10 segment.digits 0

/-- The digits of a segment spell a number below the highest bit. -/
structure Proper (segment : Segment) : Prop where
  ne_nil : segment.digits ≠ []
  isDigit : ∀ digit ∈ segment.digits, digit.isDigit = true
  number_lt : segment.number < 2 ^ 31

/-- A segment stands for an element: the apostrophe is its highest bit, and the number is what the
other bits make. -/
structure Denotes (segment : Segment) (element : UInt32) : Prop extends Proper segment where
  high_eq : element.toNat.testBit 31 = segment.marked
  low_eq : element.toNat % 2 ^ 31 = segment.number

end Segment

/-- A text stands for path elements: it is an `m` and a segment for each of them. -/
def Names (text : String) (elements : List UInt32) : Prop :=
  ∃ segments : List Segment, text.toList = 'm' :: segments.flatMap Segment.text ∧
    List.Forall₂ Segment.Denotes segments elements

variable {text first piece : List Char} {rest : List (List Char)}

/-! ### Pieces -/

theorem exists_pieces (text : List Char) : ∃ first rest, pieces text = first :: rest := by
  cases text with
  | nil => exact ⟨[], [], rfl⟩
  | cons character text =>
    rw [pieces]
    split
    · exact ⟨_, _, rfl⟩
    · split <;> exact ⟨_, _, rfl⟩

/-- A separator ends an empty piece. -/
theorem pieces_separator (h : pieces text = first :: rest) :
    pieces (separator :: text) = [] :: first :: rest := by
  rw [pieces, h]
  exact if_pos rfl

theorem pieces_cons {character : Char} (hcharacter : character ≠ separator)
    (h : pieces text = first :: rest) :
    pieces (character :: text) = (character :: first) :: rest := by
  rw [pieces, h]
  exact if_neg hcharacter

/-- A text without separators goes to the first piece of what follows it. -/
theorem pieces_append (hpiece : separator ∉ piece) (h : pieces text = first :: rest) :
    pieces (piece ++ text) = (piece ++ first) :: rest := by
  induction piece with
  | nil => exact h
  | cons character piece ih =>
    obtain ⟨hcharacter, hpiece⟩ := not_or.mp (mt List.mem_cons.mpr hpiece)
    exact pieces_cons (Ne.symm hcharacter) (ih hpiece)

theorem pieces_sound (h : pieces text = first :: rest) :
    text = first ++ rest.flatMap (separator :: ·) ∧ separator ∉ first ∧
      ∀ piece ∈ rest, separator ∉ piece := by
  induction text generalizing first rest with
  | nil =>
    cases h
    exact ⟨rfl, List.not_mem_nil, List.forall_mem_nil _⟩
  | cons character text ih =>
    obtain ⟨first', rest', htext⟩ := exists_pieces text
    obtain ⟨hjoin, hfirst, hrest⟩ := ih htext
    by_cases hcharacter : character = separator
    · rw [hcharacter, pieces_separator htext] at h
      cases h
      refine ⟨?_, List.not_mem_nil, List.forall_mem_cons.mpr ⟨hfirst, hrest⟩⟩
      rw [hcharacter, hjoin]
      rfl
    · rw [pieces_cons hcharacter htext] at h
      cases h
      refine ⟨congrArg (character :: ·) hjoin, ?_, hrest⟩
      exact fun hmem => (List.mem_cons.mp hmem).elim (Ne.symm hcharacter) hfirst

theorem pieces_complete (hfirst : separator ∉ first) (hrest : ∀ piece ∈ rest, separator ∉ piece) :
    pieces (first ++ rest.flatMap (separator :: ·)) = first :: rest := by
  induction rest generalizing first with
  | nil =>
    have hpieces : pieces (first ++ []) = [first ++ []] := pieces_append hfirst rfl
    rw [List.flatMap_nil, hpieces, List.append_nil]
  | cons piece rest ih =>
    obtain ⟨hpiece, hrest⟩ := List.forall_mem_cons.mp hrest
    have hpieces := pieces_append hfirst (pieces_separator (ih hpiece hrest))
    rw [List.append_nil] at hpieces
    exact hpieces

/-- A text is cut at its separators. -/
theorem pieces_iff : pieces text = first :: rest ↔
    text = first ++ rest.flatMap (separator :: ·) ∧ separator ∉ first ∧
      ∀ piece ∈ rest, separator ∉ piece := by
  constructor
  · exact pieces_sound
  · rintro ⟨rfl, hfirst, hrest⟩
    exact pieces_complete hfirst hrest

/-! ### Numbers -/

/-- The number of a text of digits. -/
def spelled? (digits : List Char) : Option Nat :=
  match Numeral.take digits with
  | ([], _) => none
  | (values, []) => some (Numeral.ofDigits values)
  | (_, _ :: _) => none

theorem spelled?_of_digits {digits : List Char} (hne : digits ≠ [])
    (hdigits : ∀ digit ∈ digits, digit.isDigit = true) :
    spelled? digits = some (Nat.ofDigitChars 10 digits 0) := by
  rw [spelled?, Numeral.take_of_digits hdigits, ← Numeral.ofDigits_eq]
  cases digits with
  | nil => exact absurd rfl hne
  | cons digit digits => rfl

theorem digits_of_spelled? {digits : List Char} {n : Nat} (h : spelled? digits = some n) :
    digits ≠ [] ∧ (∀ digit ∈ digits, digit.isDigit = true) ∧ Nat.ofDigitChars 10 digits 0 = n := by
  have hne : digits ≠ [] := by
    rintro rfl
    cases h
  have hdigits : ∀ digit ∈ digits, digit.isDigit = true := by
    rw [spelled?] at h
    split at h
    · cases h
    · next htake => exact Numeral.isDigit_of_take htake
    · cases h
  rw [spelled?_of_digits hne hdigits] at h
  exact ⟨hne, hdigits, Option.some.inj h⟩

theorem number?_of_ne {text : List Char} (h : text.head? ≠ some '+') :
    number? text = spelled? text := by
  unfold number?
  split
  · exact absurd rfl h
  · rfl

theorem head?_ne_of_isDigit {digits : List Char} {character : Char}
    (hdigits : ∀ digit ∈ digits, digit.isDigit = true) (hcharacter : character.isDigit = false) :
    digits.head? ≠ some character := by
  intro hhead
  have hdigit := hdigits character (List.mem_of_mem_head? hhead)
  rw [hcharacter] at hdigit
  cases hdigit

/-- The number of a piece without mark is spelled behind its plus sign, if it has one. -/
theorem exists_unmarked_of_number? {n : Nat} (h : number? piece = some n) (marked : Bool) :
    ∃ plus digits, piece = (Segment.mk plus digits marked).unmarked ∧ spelled? digits = some n := by
  by_cases hplus : piece.head? = some '+'
  · obtain ⟨digits, rfl⟩ := List.head?_eq_some_iff.mp hplus
    exact ⟨true, digits, rfl, h⟩
  · rw [number?_of_ne hplus] at h
    exact ⟨false, piece, rfl, h⟩

theorem Segment.Proper.number?_unmarked {segment : Segment} (h : segment.Proper) :
    number? segment.unmarked = some segment.number := by
  have hspelled := spelled?_of_digits h.ne_nil h.isDigit
  cases hplus : segment.plus with
  | true =>
    rw [Segment.unmarked, hplus]
    exact hspelled
  | false =>
    rw [Segment.unmarked, hplus]
    exact (number?_of_ne (head?_ne_of_isDigit h.isDigit (by decide))).trans hspelled

/-! ### Elements -/

/-- The element that a segment stands for. -/
def Segment.element (segment : Segment) : UInt32 :=
  (if segment.marked then segment.number + Network.hardened else segment.number).toUInt32

/-- The mark and the number are the bits of the element. -/
theorem Segment.Proper.denotes_iff {segment : Segment} (h : segment.Proper) {element : UInt32} :
    segment.Denotes element ↔ element = segment.element := by
  have hnumber : segment.number < 2147483648 := h.number_lt
  have hvalue : segment.element.toNat =
      if segment.marked then segment.number + 2147483648 else segment.number := by
    apply UInt32.toNat_ofNat_of_lt'
    split
    · exact Nat.add_lt_add_right hnumber 2147483648
    · exact Nat.lt_trans hnumber (by decide)
  have hbound := element.toNat_lt
  have hbit : element.toNat.testBit 31 = decide (element.toNat / 2147483648 % 2 = 1) :=
    Nat.testBit_eq_decide_div_mod_eq
  constructor
  · rintro ⟨-, hhigh, hlow⟩
    have hlow : element.toNat % 2147483648 = segment.number := hlow
    apply UInt32.toNat_inj.mp
    rw [hvalue, ← hhigh, hbit]
    split
    · next hset =>
      have hset := of_decide_eq_true hset
      omega
    · next hclear =>
      have hclear := of_decide_eq_false (Bool.eq_false_iff.mpr hclear)
      omega
  · rintro rfl
    refine ⟨h, ?_, ?_⟩
    · rw [hbit, hvalue]
      cases segment.marked with
      | true =>
        have hset : (segment.number + 2147483648) / 2147483648 % 2 = 1 := by omega
        exact decide_eq_true hset
      | false =>
        have hclear : ¬segment.number / 2147483648 % 2 = 1 := by omega
        exact decide_eq_false hclear
    · change segment.element.toNat % 2147483648 = _
      rw [hvalue]
      split <;> omega

/-- A piece is what `unmark` leaves of it, and the mark if there was one. -/
theorem eq_unmark_append (piece : List Char) :
    piece = (unmark piece).1 ++ if (unmark piece).2 then [hardenedMark] else [] := by
  unfold unmark
  split
  · next hlast =>
    obtain ⟨front, rfl⟩ := List.getLast?_eq_some_iff.mp hlast
    rw [List.dropLast_concat]
    rfl
  · exact (List.append_nil piece).symm

theorem Segment.Proper.unmark_body {segment : Segment} (h : segment.Proper) :
    unmark segment.body = (segment.unmarked, segment.marked) := by
  unfold Segment.body
  cases segment.marked with
  | true =>
    rw [if_pos rfl, unmark, if_pos List.getLast?_concat, List.dropLast_concat]
  | false =>
    -- What stands last is a digit.
    have hlast : segment.unmarked.getLast? ≠ some hardenedMark := by
      intro hlast
      rw [Segment.unmarked, List.getLast?_append_of_ne_nil _ h.ne_nil] at hlast
      have hdigit := h.isDigit hardenedMark (List.mem_of_getLast? hlast)
      exact absurd hdigit (by decide)
    rw [if_neg Bool.false_ne_true, List.append_nil, unmark, if_neg hlast]

theorem element?_sound {element : UInt32} (h : element? piece = some element) :
    ∃ segment : Segment, piece = segment.body ∧ segment.Denotes element := by
  have hpiece := eq_unmark_append piece
  unfold element? at h
  obtain ⟨n, hn, h⟩ := Option.bind_eq_some_iff.mp h
  obtain ⟨plus, digits, hunmarked, hspelled⟩ := exists_unmarked_of_number? hn (unmark piece).2
  obtain ⟨hne, hdigits, rfl⟩ := digits_of_spelled? hspelled
  by_cases hlt : Nat.ofDigitChars 10 digits 0 < Network.hardened
  · rw [if_pos hlt] at h
    have hproper : (Segment.mk plus digits (unmark piece).2).Proper := ⟨hne, hdigits, hlt⟩
    refine ⟨_, ?_, hproper.denotes_iff.mpr (Option.some.inj h).symm⟩
    rw [Segment.body, ← hunmarked]
    exact hpiece
  · rw [if_neg hlt] at h
    cases h

theorem element?_complete {segment : Segment} {element : UInt32} (h : segment.Denotes element) :
    element? segment.body = some element := by
  have hproper := h.toProper
  have hlt : segment.number < Network.hardened := hproper.number_lt
  rw [element?, hproper.unmark_body]
  dsimp only
  rw [hproper.number?_unmarked, hproper.denotes_iff.mp h]
  exact if_pos hlt

theorem element?_iff {element : UInt32} : element? piece = some element ↔
    ∃ segment : Segment, piece = segment.body ∧ segment.Denotes element := by
  constructor
  · exact element?_sound
  · rintro ⟨segment, rfl, h⟩
    exact element?_complete h

/-! ### Texts -/

theorem Segment.Proper.separator_notMem {segment : Segment} (h : segment.Proper) :
    separator ∉ segment.body := by
  intro hmem
  simp only [Segment.body, Segment.unmarked, List.mem_append] at hmem
  rcases hmem with (hplus | hdigit) | hmark
  · split at hplus
    · exact absurd hplus (by decide)
    · cases hplus
  · exact absurd (h.isDigit _ hdigit) (by decide)
  · split at hmark
    · exact absurd hmark (by decide)
    · cases hmark

/-- All pieces are read when each is written as a segment. -/
theorem mapM_element?_iff {pieces : List (List Char)} {elements : List UInt32} :
    pieces.mapM element? = some elements ↔ ∃ segments : List Segment,
      pieces = segments.map Segment.body ∧ List.Forall₂ Segment.Denotes segments elements := by
  induction pieces generalizing elements with
  | nil =>
    rw [List.mapM_nil]
    constructor
    · rintro ⟨⟩
      exact ⟨[], rfl, .nil⟩
    · rintro ⟨segments, hsegments, hdenotes⟩
      obtain rfl := List.map_eq_nil_iff.mp hsegments.symm
      cases hdenotes
      rfl
  | cons piece pieces ih =>
    rw [List.mapM_cons]
    constructor
    · intro h
      obtain ⟨element, helement, h⟩ := Option.bind_eq_some_iff.mp h
      obtain ⟨elements, helements, h⟩ := Option.bind_eq_some_iff.mp h
      cases h
      obtain ⟨segment, rfl, hdenotes⟩ := element?_iff.mp helement
      obtain ⟨segments, rfl, hall⟩ := ih.mp helements
      exact ⟨segment :: segments, rfl, .cons hdenotes hall⟩
    · rintro ⟨segments, hsegments, hall⟩
      cases hall with
      | nil => cases hsegments
      | @cons segment element segments elements hdenotes hall =>
        obtain ⟨rfl, hrest⟩ := List.cons.inj hsegments
        rw [element?_complete hdenotes, ih.mpr ⟨segments, hrest, hall⟩]
        rfl

theorem proper_of_forall₂ {segments : List Segment} {elements : List UInt32}
    (h : List.Forall₂ Segment.Denotes segments elements) :
    ∀ segment ∈ segments, segment.Proper := by
  induction h with
  | nil => exact List.forall_mem_nil _
  | cons hdenotes hall ih => exact List.forall_mem_cons.mpr ⟨hdenotes.toProper, ih⟩

/-- The segments of a text stand behind its separators. -/
theorem flatMap_text (segments : List Segment) :
    segments.flatMap Segment.text = (segments.map Segment.body).flatMap (separator :: ·) := by
  rw [List.flatMap_map]
  rfl

/-- The texts that are read are those that stand for elements. -/
theorem parse?_iff {text : String} {elements : List UInt32} :
    parse? text = some elements ↔ Names text elements := by
  obtain ⟨first, rest, hpieces⟩ := exists_pieces text.toList
  have hparse : parse? text = if first = [root] then rest.mapM element? else none := by
    rw [parse?, hpieces]
  rw [hparse]
  constructor
  · intro h
    split at h
    · next hfirst =>
      obtain ⟨segments, rfl, hall⟩ := mapM_element?_iff.mp h
      obtain ⟨htext, -⟩ := pieces_iff.mp hpieces
      refine ⟨segments, ?_, hall⟩
      rw [htext, hfirst, flatMap_text]
      rfl
    · cases h
  · rintro ⟨segments, htext, hall⟩
    have hrest : ∀ piece ∈ segments.map Segment.body, separator ∉ piece := by
      intro piece hpiece
      obtain ⟨segment, hsegment, rfl⟩ := List.mem_map.mp hpiece
      exact (proper_of_forall₂ hall segment hsegment).separator_notMem
    have hroot : separator ∉ [root] := by decide
    have hnamed : pieces text.toList = [root] :: segments.map Segment.body := by
      rw [htext, flatMap_text]
      exact pieces_complete hroot hrest
    rw [hpieces] at hnamed
    obtain ⟨rfl, rfl⟩ := List.cons.inj hnamed
    rw [if_pos rfl]
    exact mapM_element?_iff.mpr ⟨segments, rfl, hall⟩

example : parse? "m/+007'/12" = some [0x80000007, 12] := by decide +kernel

/-! ### Printed paths -/

/-- The segment that an element is printed as. -/
def Segment.ofElement (element : UInt32) : Segment where
  plus := false
  digits := Nat.toDigits 10 (element.toNat % 2 ^ 31)
  marked := element.toNat.testBit 31

theorem Segment.ofElement_denotes (element : UInt32) : (ofElement element).Denotes element := by
  have hnumber : (ofElement element).number = element.toNat % 2 ^ 31 :=
    Nat.ofDigitChars_ten_toDigits
  refine ⟨⟨Nat.toDigits_ne_nil, ?_, ?_⟩, rfl, hnumber.symm⟩
  · exact fun digit => Nat.isDigit_of_mem_toDigits (by decide) (by decide)
  · rw [hnumber]
    exact Nat.mod_lt _ (by decide)

theorem Segment.body_ofElement (element : UInt32) :
    (ofElement element).body = printElement element := by
  have hbit : (ofElement element).marked = decide (element.toNat / 2147483648 % 2 = 1) :=
    Nat.testBit_eq_decide_div_mod_eq
  have hbound := element.toNat_lt
  change Nat.toDigits 10 (element.toNat % 2147483648) ++
    (if (ofElement element).marked then _ else _) =
    if element.toNat < 2147483648 then _ else Nat.toDigits 10 (element.toNat - 2147483648) ++ _
  rw [hbit]
  by_cases hlow : element.toNat < 2147483648
  · have hclear : ¬element.toNat / 2147483648 % 2 = 1 := by omega
    rw [if_pos hlow, decide_eq_false hclear, Nat.mod_eq_of_lt hlow]
    exact List.append_nil _
  · have hset : element.toNat / 2147483648 % 2 = 1 := by omega
    have hrest : element.toNat % 2147483648 = element.toNat - 2147483648 := by omega
    rw [if_neg hlow, decide_eq_true hset, hrest]
    rfl

/-- A path is printed with a segment for each of its elements. -/
theorem print_eq (elements : List UInt32) :
    print elements =
      String.ofList ('m' :: (elements.map Segment.ofElement).flatMap Segment.text) := by
  have hbody : Segment.body ∘ Segment.ofElement = printElement := funext Segment.body_ofElement
  rw [flatMap_text, List.map_map, hbody, List.flatMap_map]
  rfl

theorem print_names (elements : List UInt32) : Names (print elements) elements := by
  refine ⟨elements.map Segment.ofElement, ?_, ?_⟩
  · rw [print_eq, String.toList_ofList]
  · rw [List.forall₂_map_left_iff, List.forall₂_same]
    exact fun element _ => Segment.ofElement_denotes element

end PathText

namespace TestVector

open PathText (Names)

theorem elementsOfText_iff {text : String} {elements : List UInt32} :
    elementsOfText text = .ok elements ↔ Names text elements := by
  rw [← PathText.parse?_iff, elementsOfText]
  cases PathText.parse? text <;> simp

theorem elementsOfText_of_none {text : String} (h : ∀ elements, ¬Names text elements) :
    elementsOfText text = .error (.path text) := by
  cases hparse : PathText.parse? text with
  | some elements => exact absurd (PathText.parse?_iff.mp hparse) (h elements)
  | none => rw [elementsOfText, hparse]

/-- A text is read as path elements exactly when it names them, and every other text is given back
with the error. A path is printed in decimal digits, with an apostrophe for the highest bit, and
read again. -/
theorem elementsOfText_language (text : String) :
    (∀ elements, elementsOfText text = .ok elements ↔ Names text elements) ∧
    (∀ error, elementsOfText text = .error error ↔
      error = .path text ∧ ∀ elements, ¬Names text elements) ∧
    ∀ elements : List UInt32,
      PathText.print elements = String.ofList ('m' :: elements.flatMap fun element =>
        '/' :: (Nat.toDigits 10 (element.toNat % 2 ^ 31) ++
          if element.toNat.testBit 31 then [PathText.hardenedMark] else [])) ∧
      elementsOfText (PathText.print elements) = .ok elements := by
  refine ⟨fun elements => elementsOfText_iff, fun error => ?_, fun elements => ⟨?_, ?_⟩⟩
  · constructor
    · intro herror
      have hnone (elements : List UInt32) : ¬Names text elements := by
        rw [← elementsOfText_iff, herror]
        exact nofun
      rw [elementsOfText_of_none hnone] at herror
      exact ⟨(Except.error.inj herror).symm, hnone⟩
    · rintro ⟨rfl, hnone⟩
      exact elementsOfText_of_none hnone
  · rw [PathText.print_eq, List.flatMap_map]
    rfl
  · exact elementsOfText_iff.mpr (PathText.print_names elements)

end TestVector

end NemSigner
