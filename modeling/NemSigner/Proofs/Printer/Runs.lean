import Mathlib.Data.List.SplitBy
import NemSigner.Proofs.Checked.Data

/-!
# Sanitising run by run

A text is cut into the longest stretches that a screen can show whole or cannot show at all. The
ones it can show are copied, and of the others a question mark is left for every two bytes. The
printer that goes through a text byte by byte shows the same, as far as there is room.

## Main definitions

- `Bytes.runs` — the stretches of a text
- `Printer.shownRun` — what is shown of one of them

## Main statements

- `Printer.cleaned_eq_runs` — a text is sanitised run by run
- `Printer.sanitised_runs` — what is left of it where the buffer ends
-/

namespace NemSigner

namespace Bytes

/-- Neighbours that belong to one run: a screen can show both bytes or none of them. -/
def alike (byte next : UInt8) : Bool :=
  isPrintable byte == isPrintable next

/-- The longest runs of bytes all of which a screen can show, or none of which it can. -/
def runs (data : Bytes) : List Bytes :=
  data.splitBy alike

/-- None of the bytes can be shown. -/
def Hidden (run : Bytes) : Prop :=
  ∀ byte ∈ run, isPrintable byte = false

/-- The bytes of a run are all of the kind of the first. -/
theorem printable_or_hidden {run : Bytes} (h : run.IsChain fun byte next => alike byte next) :
    run.Printable ∨ run.Hidden := by
  induction run with
  | nil => exact .inl .nil
  | cons byte rest ih =>
    cases rest with
    | nil =>
      cases hbyte : isPrintable byte with
      | true => exact .inl (.cons hbyte .nil)
      | false => exact .inr (List.forall_mem_singleton.mpr hbyte)
    | cons next rest =>
      obtain ⟨halike, hrest⟩ := List.isChain_cons_cons.mp h
      have hkind : isPrintable byte = isPrintable next := beq_iff_eq.mp halike
      rcases ih hrest with hshown | hhidden
      · exact .inl (.cons (hkind.trans (hshown next List.mem_cons_self)) hshown)
      · have hbyte := hkind.trans (hhidden next List.mem_cons_self)
        exact .inr (List.forall_mem_cons.mpr ⟨hbyte, hhidden⟩)

end Bytes

namespace Printer

variable {run rest : Bytes}

/-- What is shown of a run: the run itself, or a question mark for every two bytes and one for the
last when their number is odd. -/
def shownRun (run : Bytes) : Bytes :=
  if run.all Bytes.isPrintable then run else List.replicate ((run.length + 1) / 2) questionMark

theorem shownRun_of_printable (h : run.Printable) : shownRun run = run :=
  if_pos (List.all_eq_true.mpr h)

theorem shownRun_of_hidden (hne : run ≠ []) (h : run.Hidden) :
    shownRun run = List.replicate ((run.length + 1) / 2) questionMark := by
  refine if_neg fun hall => ?_
  obtain ⟨byte, hbyte⟩ := List.exists_mem_of_ne_nil run hne
  have hshown := List.all_eq_true.mp hall byte hbyte
  rw [h byte hbyte] at hshown
  cases hshown

/-- A byte that can be shown does not care what stands before it. -/
theorem cleanedAfter_of_head (paired : Bool)
    (h : ∀ byte ∈ rest.head?, Bytes.isPrintable byte = true) :
    cleanedAfter paired rest = cleanedAfter false rest := by
  cases rest with
  | nil => rfl
  | cons byte rest =>
    have hbyte := h byte rfl
    rw [cleanedAfter, if_pos hbyte, cleanedAfter, if_pos hbyte]

theorem cleanedAfter_printable_append (h : run.Printable) (rest : Bytes) :
    cleanedAfter false (run ++ rest) = run ++ cleanedAfter false rest := by
  induction run with
  | nil => rfl
  | cons byte run ih =>
    obtain ⟨hbyte, hrun⟩ := List.forall_mem_cons.mp h
    rw [List.cons_append, cleanedAfter, if_pos hbyte, ih hrun, List.cons_append]

/-- Hidden bytes are shown two by two. The first of them is passed over when the byte before it has
been replaced. -/
theorem cleanedAfter_hidden_append (paired : Bool) (h : run.Hidden)
    (hrest : ∀ byte ∈ rest.head?, Bytes.isPrintable byte = true) :
    cleanedAfter paired (run ++ rest) =
      List.replicate ((run.length + if paired then 0 else 1) / 2) questionMark ++
        cleanedAfter false rest := by
  -- The flag says how many bytes of the run are left over from the pairs so far.
  induction run generalizing paired with
  | nil =>
    rw [List.nil_append, cleanedAfter_of_head paired hrest]
    cases paired <;> rfl
  | cons byte run ih =>
    obtain ⟨hbyte, hrun⟩ := List.forall_mem_cons.mp h
    have hhidden : ¬Bytes.isPrintable byte = true := by
      rw [hbyte]
      exact Bool.false_ne_true
    rw [List.cons_append, cleanedAfter, if_neg hhidden, List.length_cons]
    cases paired with
    | true =>
      rw [if_pos rfl, ih false hrun]
      rfl
    | false =>
      have hcount : (run.length + 1 + 1) / 2 = run.length / 2 + 1 := by omega
      rw [if_neg Bool.false_ne_true, if_neg Bool.false_ne_true, ih true hrun, hcount,
        List.replicate_succ]
      rfl

/-- Where a run ends whose bytes are hidden, the next run starts with a byte that can be shown, or
the text is at its end. -/
theorem head_printable_of_hidden {runs : List Bytes} (hrun : run.Hidden)
    (hnext : ∀ next ∈ runs.head?, ∃ ha hb, Bytes.alike (run.getLast ha) (next.head hb) = false) :
    ∀ byte ∈ runs.flatten.head?, Bytes.isPrintable byte = true := by
  intro byte hbyte
  cases runs with
  | nil => cases hbyte
  | cons next runs =>
    obtain ⟨hlast, hfirst, hother⟩ := hnext next rfl
    obtain ⟨first, tail, rfl⟩ := List.exists_cons_of_ne_nil hfirst
    obtain rfl : first = byte := Option.some.inj hbyte
    have hkinds : Bytes.isPrintable (run.getLast hlast) ≠ Bytes.isPrintable first :=
      fun hkind => absurd (beq_iff_eq.mpr hkind) (Bool.eq_false_iff.mp hother)
    rw [hrun _ (List.getLast_mem hlast)] at hkinds
    exact (Bool.eq_false_or_eq_true _).resolve_right hkinds.symm

/-- Runs that are as long as they can be are sanitised one by one. -/
theorem cleaned_flatten {runs : List Bytes} (hne : [] ∉ runs)
    (hchain : ∀ run ∈ runs, run.IsChain fun byte next => Bytes.alike byte next)
    (hmaximal : runs.IsChain fun run next =>
      ∃ ha hb, Bytes.alike (run.getLast ha) (next.head hb) = false) :
    cleaned runs.flatten = runs.flatMap shownRun := by
  induction runs with
  | nil => rfl
  | cons run runs ih =>
    obtain ⟨hrun, hruns⟩ := not_or.mp (mt List.mem_cons.mpr hne)
    obtain ⟨hchain, hchains⟩ := List.forall_mem_cons.mp hchain
    obtain ⟨hnext, hmaximal⟩ := List.isChain_cons.mp hmaximal
    rw [List.flatten_cons, List.flatMap_cons, ← ih hruns hchains hmaximal, cleaned]
    rcases Bytes.printable_or_hidden hchain with hshown | hhidden
    · rw [cleanedAfter_printable_append hshown, shownRun_of_printable hshown]
      rfl
    · rw [cleanedAfter_hidden_append false hhidden (head_printable_of_hidden hhidden hnext),
        shownRun_of_hidden (Ne.symm hrun) hhidden]
      rfl

/-- A text is sanitised run by run. -/
theorem cleaned_eq_runs (data : Bytes) : cleaned data = (Bytes.runs data).flatMap shownRun := by
  have hcleaned := cleaned_flatten (List.nil_notMem_splitBy Bytes.alike data)
    (fun _ => List.isChain_of_mem_splitBy) (List.isChain_getLast_head_splitBy Bytes.alike data)
  rw [List.flatten_splitBy] at hcleaned
  exact hcleaned

/-- What is shown of the runs of a text stands at the front of the buffer, as far as there is room,
and what is behind it stays. So it is whether the printer fills the buffer or a routine counts its
cells. -/
theorem sanitised_runs (data buffer : Bytes) :
    let shown := (Bytes.runs data).flatMap shownRun
    let count := min buffer.length shown.length
    sanitised data buffer = ⟨.ok count, shown.take count ++ buffer.drop count⟩ ∧
      Pen.ascii data buffer = .ok (count, shown.take count ++ buffer.drop count) := by
  intro shown count
  have hshown : cleaned data = shown := cleaned_eq_runs data
  have hcount : (shown.take buffer.length).length = count := List.length_take
  have htake : shown.take buffer.length = shown.take count := List.take_eq_take_min
  have hdrop : buffer.drop shown.length = buffer.drop count := by
    rcases Nat.le_total buffer.length shown.length with hshort | hroom
    · have hfull : count = buffer.length := Nat.min_eq_left hshort
      rw [hfull, List.drop_length, List.drop_of_length_le hshort]
    · have hwhole : count = shown.length := Nat.min_eq_right hroom
      rw [hwhole]
  constructor
  · rw [sanitised_cuts data buffer, hshown, hcount, htake]
  · have hcuts := Pen.ascii_cuts data buffer
    rw [hshown, List.nil_append, List.nil_append, hcount, htake, hdrop] at hcuts
    exact hcuts

/-- A letter that is no ASCII takes two bytes and becomes one question mark; three bytes become
two. -/
example : (Bytes.runs [0x61, 0xc3, 0xa9, 0x62, 0x01, 0x02, 0x03]).flatMap shownRun =
    [0x61, 0x3f, 0x62, 0x3f, 0x3f] := by
  decide

end Printer

end NemSigner
