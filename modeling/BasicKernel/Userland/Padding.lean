import BasicKernel.Userland.FormatRun

set_option autoImplicit false

/-! # The padding of `printf`

Two formats lead `printf` astray: one that ends in a `%`, and a character with the width 0. The length of
a number is counted without its sign, and zero has the length 0, so that the padding is right only for
some numbers.

`printf_stays_inside_iff` says for which formats a call reads no character outside and pads no
field beyond its width. `printf_percent_leaves` is a call that reads on.
-/

namespace BasicKernel

open Fuel Decimal

variable {piece : Piece} {ps qs : List Piece} {args as bs : List Argument} {p : Printer} {cs rest : List UInt8}

/-! ## Leaving the format

What the pieces of a format say about the reads of a call and about its padding loops. -/

/-- No `%` at the end, and no character with a width below 1. -/
def Piece.Fine (piece : Piece) : Prop :=
  piece ≠ .dangling ∧ ∀ margen, piece = .paddedCharacter margen → 1 ≤ margen

/-- The counter of the padding loops never was negative, and no loop printed more blanks than the width. -/
def Printer.Sound (p : Printer) : Prop :=
  p.belowZero = false ∧ ∀ x ∈ p.paddings, (x.2 : Int) ≤ x.1

/-- `printf` returns, with every read of the format inside it. -/
def StaysInside (format : CString) (args : List Argument) : Prop :=
  ∃ p, Returns (printf · format.region args) p ∧ p.Sound

def Printed.Sound (x : Printed) : Prop := x.belowZero = false ∧ ∀ y ∈ x.paddings, (y.2 : Int) ≤ y.1

theorem Printer.sound_after : (p.after piece).Sound ↔ p.Sound ∧ (piece.prints p.parameters).Sound := by
  simp only [Printer.Sound, Printed.Sound, Printer.after, Printer.add, Bool.or_eq_false_iff,
    List.forall_mem_append]
  tauto

theorem Printed.sound_plain (chars : List UInt8) : (Printed.plain chars).Sound :=
  ⟨rfl, fun _ hy => absurd hy List.not_mem_nil⟩

theorem length_blanks {margen : Int} (h0 : 0 ≤ margen) (h : margen < 2 ^ 32) :
    ((blanks margen).length : Int) = margen := by
  rw [blanks, List.length_replicate]
  omega

theorem Printed.sound_field (length : Nat) {margen : Int} (h : margen < 2 ^ 31) (chars : List UInt8) :
    (Printed.field length margen chars).Sound := by
  rw [Printed.field]
  split_ifs with hlt
  · refine ⟨decide_eq_false (by omega), fun y hy => ?_⟩
    obtain rfl := List.mem_singleton.mp hy
    rw [length_blanks (by omega) (by omega)]
    omega
  · exact Printed.sound_plain chars

/-- For a character the counter starts one below the width. -/
theorem Printed.sound_behind {margen : Int} (h : -2 ^ 31 ≤ margen ∧ margen < 2 ^ 31) (chars : List UInt8) :
    (Printed.behind margen (toInt32 (margen - 1)) chars).Sound ↔ 1 ≤ margen := by
  by_cases hone : 1 ≤ margen
  · rw [toInt32_of_bounds (by omega) (by omega)]
    refine iff_of_true ⟨?_, fun y hy => ?_⟩ hone
    · exact decide_eq_false (by omega)
    · obtain rfl := List.mem_singleton.mp hy
      rw [length_blanks (by omega) (by omega)]
      omega
  · refine iff_of_false ?_ hone
    rintro ⟨hcounter, hpaddings⟩
    by_cases hmin : margen = -2 ^ 31
    · -- one below the least width the counter wraps to the greatest number
      have hwrap : toInt32 (margen - 1) = 2 ^ 31 - 1 := by
        rw [hmin]
        decide
      have hlong := hpaddings _ (List.mem_singleton.mpr rfl)
      rw [hwrap, length_blanks (by decide) (by decide)] at hlong
      omega
    · rw [toInt32_of_bounds (by omega) (by omega)] at hcounter
      exact absurd (of_decide_eq_false hcounter) (not_not_intro (by omega))

/-- Every piece but a character with a width prints its characters, or a field of its width. -/
theorem Piece.prints_cases (args : List Argument) (hne : ∀ margen, piece ≠ .paddedCharacter margen) :
    (∃ chars, piece.prints args = .plain chars) ∨
      ∃ (length : Nat) (chars : List UInt8), piece.prints args = .field length piece.width chars := by
  cases piece with
  | paddedString margen =>
      rcases args with _ | ⟨_ | word, args'⟩
      · exact .inl ⟨_, rfl⟩
      · exact .inl ⟨_, rfl⟩
      · exact .inr ⟨word.length, word.chars, rfl⟩
  | paddedNumber margen =>
      rcases args with _ | ⟨v | _, args'⟩
      · exact .inl ⟨_, rfl⟩
      · exact .inr ⟨(digits v.toInt.natAbs).length, numChars v.toInt, rfl⟩
      · exact .inl ⟨_, rfl⟩
  | paddedCharacter margen => exact absurd rfl (hne margen)
  | _ => rcases args with _ | ⟨_ | _, _⟩ <;> exact .inl ⟨_, rfl⟩

theorem Piece.sound_prints (hd : piece ≠ .dangling) (hwidth : -2 ^ 31 ≤ piece.width ∧ piece.width < 2 ^ 31)
    (hargs : ∀ k, piece.takes = some k → ∃ a args', args = a :: args' ∧ a.kind = k) :
    (piece.prints args).Sound ↔ piece.Fine := by
  by_cases hcharacter : ∃ margen, piece = .paddedCharacter margen
  · obtain ⟨margen, rfl⟩ := hcharacter
    obtain ⟨a, args', rfl, hkind⟩ := hargs .int rfl
    obtain ⟨v, rfl⟩ := Argument.eq_int hkind
    refine (Printed.sound_behind hwidth _).trans ?_
    exact ⟨fun h => ⟨hd, fun m hm => (by cases hm; exact h)⟩, fun h => h.2 margen rfl⟩
  · have hne : ∀ margen, piece ≠ .paddedCharacter margen := fun margen h => hcharacter ⟨margen, h⟩
    refine iff_of_true ?_ ⟨hd, fun margen h => absurd h (hne margen)⟩
    rcases piece.prints_cases args hne with ⟨chars, hprints⟩ | ⟨length, chars, hprints⟩
    · rw [hprints]
      exact Printed.sound_plain chars
    · rw [hprints]
      exact Printed.sound_field length hwidth.2 chars

theorem sound_foldl_after (hd : .dangling ∉ ps)
    (hwidth : ∀ piece ∈ ps, -2 ^ 31 ≤ piece.width ∧ piece.width < 2 ^ 31)
    (hargs : Supplies p.parameters ps) :
    (ps.foldl Printer.after p).Sound ↔ p.Sound ∧ ∀ piece ∈ ps, piece.Fine := by
  induction ps generalizing p with
  | nil => simp
  | cons piece ps ih =>
      rw [List.mem_cons, not_or] at hd
      obtain ⟨hkind, hsupplies⟩ := hargs.cons
      have hpiece := Piece.sound_prints (Ne.symm hd.1) (hwidth piece List.mem_cons_self) hkind
      rw [List.foldl_cons, ih hd.2 (fun q hq => hwidth q (List.mem_cons_of_mem piece hq)) hsupplies,
        Printer.sound_after, hpiece, List.forall_mem_cons, and_assoc]

theorem pieces_width (cs : List UInt8) : ∀ piece ∈ pieces cs, -2 ^ 31 ≤ piece.width ∧ piece.width < 2 ^ 31 := by
  fun_induction pieces cs with
  | case1 => exact fun piece h => absurd h List.not_mem_nil
  | case2 cs ih => exact List.forall_mem_cons.mpr ⟨nextPiece_width cs, ih⟩
  | case3 c cs hc ih =>
      have hzero : -2 ^ 31 ≤ (0 : Int) ∧ (0 : Int) < 2 ^ 31 := by decide
      exact List.forall_mem_cons.mpr ⟨hzero, ih⟩

/-- `printf` stays inside the formats whose pieces are all fine. -/
theorem printf_stays_inside_iff (format : CString) (hargs : Supplies args (pieces format.chars)) :
    StaysInside format args ↔ ∀ piece ∈ pieces format.chars, piece.Fine := by
  by_cases hd : .dangling ∈ pieces format.chars
  · refine iff_of_false ?_ fun hfine => (hfine _ hd).1 rfl
    rintro ⟨p, hreturns, -⟩
    obtain ⟨fuel, hrun⟩ := hreturns.exists_fuel
    exact printf_never format hargs hd fuel p hrun
  · have hreturns := printf_returns format hargs hd
    have hsound := sound_foldl_after (p := ⟨[], args, false, []⟩) hd (pieces_width format.chars) hargs
    have hstart : Printer.Sound ⟨[], args, false, []⟩ := ⟨rfl, fun x hx => absurd hx List.not_mem_nil⟩
    constructor
    · rintro ⟨p, hp, hpsound⟩
      obtain ⟨fuel, hrun⟩ := hp.exists_fuel
      rw [hreturns.eq hrun, hsound] at hpsound
      exact hpsound.2
    · exact fun hfine => ⟨_, hreturns, hsound.mpr ⟨hstart, hfine⟩⟩

/-- A character in a column of width 3. -/
theorem printf_stays_inside_column : StaysInside ⟨[37, 51, 99, 10], by decide⟩ [.int 65] := by
  have hnext : nextPiece [51, 99, 10] = (.paddedCharacter 3, [10]) := by decide
  have hpieces : pieces [37, 51, 99, 10] = [.paddedCharacter 3, .text 10] := by
    rw [pieces_percent, hnext, pieces_text (by decide), pieces_nil]
  have hsupplies : Supplies [.int 65] (pieces [37, 51, 99, 10]) := by
    rw [hpieces]
    exact List.prefix_rfl
  refine (printf_stays_inside_iff ⟨[37, 51, 99, 10], by decide⟩ hsupplies).mpr fun piece hpiece => ?_
  rw [hpieces] at hpiece
  rcases List.mem_pair.mp hpiece with rfl | rfl
  · exact ⟨Piece.noConfusion, fun margen h => by cases h; decide⟩
  · exact ⟨Piece.noConfusion, fun margen => Piece.noConfusion⟩

/-- A lone `%` is printed with the NUL behind it, and the format is read on behind the NUL. -/
theorem printf_percent_leaves : ¬ StaysInside ⟨[37], by decide⟩ [] := by
  have hpieces : pieces [37] = [.dangling] := by
    rw [pieces_percent, nextPiece, pieces_nil]
  rintro ⟨p, hreturns, -⟩
  obtain ⟨fuel, hrun⟩ := hreturns.exists_fuel
  refine printf_never ⟨[37], by decide⟩ ?_ ?_ fuel p hrun <;> rw [hpieces]
  · exact List.nil_prefix
  · exact List.mem_cons_self

end BasicKernel
