import BasicKernel.Userland.FormatRun
import BasicKernel.Pipes.Itoa

set_option autoImplicit false

/-! # Numbers with a width

`printf` counts the digits of a number with a loop of its own, in which zero has no digits and a sign is
not counted, and the digits are printed by `putNum`, for which zero is a case of its own.

`printf_width_iff` says which numbers are printed as a field of their width, anywhere in a format.
-/

namespace BasicKernel

open Fuel Decimal

variable {ps qs : List Piece} {args as bs : List Argument} {p : Printer} {cs rest : List UInt8} {N n : Nat}

/-! ## What a format prints -/

/-- The arguments are one of the right kind for each piece that takes one, and no others. -/
def Takes (args : List Argument) (ps : List Piece) : Prop :=
  ps.filterMap Piece.takes = args.map Argument.kind

/-- The characters of the pieces. -/
def emitted : List Piece → List Argument → List UInt8
  | [], _ => []
  | piece :: ps, args => (piece.prints args).chars ++ emitted ps (piece.rest args)

theorem output_foldl_after (ps : List Piece) (p : Printer) :
    (ps.foldl Printer.after p).output = p.output ++ emitted ps p.parameters := by
  induction ps generalizing p with
  | nil => rw [List.foldl_nil, emitted, List.append_nil]
  | cons piece ps ih =>
      rw [List.foldl_cons, ih, emitted, ← List.append_assoc]
      rfl

/-- A call of `printf` prints `out`. -/
def Emits (format : CString) (args : List Argument) (out : List UInt8) : Prop :=
  ∃ p, Returns (printf · format.region args) p ∧ p.output = out

theorem emits_iff (format : CString) (hargs : Supplies args (pieces format.chars))
    (hd : .dangling ∉ pieces format.chars) (out : List UInt8) :
    Emits format args out ↔ out = emitted (pieces format.chars) args := by
  have hreturns := printf_returns format hargs hd
  have houtput := output_foldl_after (pieces format.chars) ⟨[], args, false, []⟩
  rw [List.nil_append] at houtput
  constructor
  · rintro ⟨p, hp, rfl⟩
    obtain ⟨fuel, hrun⟩ := hp.exists_fuel
    rw [hreturns.eq hrun, houtput]
  · rintro rfl
    exact ⟨_, hreturns, houtput⟩

theorem Piece.rest_of_none {piece : Piece} (h : piece.takes = none) (args : List Argument) :
    piece.rest args = args := by
  rw [Piece.rest, h]
  rfl

theorem Piece.rest_of_some {piece : Piece} {k : Kind} (h : piece.takes = some k) (a : Argument)
    (args : List Argument) : piece.rest (a :: args) = args := by
  rw [Piece.rest, h]
  rfl

/-- A piece looks at its own argument only. -/
theorem Takes.cons {piece : Piece} (h : Takes args (piece :: ps)) :
    Takes (piece.rest args) ps ∧ ∀ bs, piece.prints (args ++ bs) = piece.prints args ∧
      piece.rest (args ++ bs) = piece.rest args ++ bs := by
  rw [Takes, List.filterMap_cons] at h
  cases htakes : piece.takes with
  | none =>
      rw [htakes] at h
      simp only [Piece.rest_of_none htakes]
      refine ⟨h, fun bs => ⟨?_, trivial⟩⟩
      cases piece with
      | text | unknown | skipped | dangling => rfl
      | string | character | number | paddedString | paddedNumber | paddedCharacter => cases htakes
  | some k =>
      rw [htakes] at h
      cases args with
      | nil => cases h
      | cons a args =>
          rw [List.map_cons, List.cons.injEq] at h
          simp only [List.cons_append, Piece.rest_of_some htakes]
          refine ⟨h.2, fun bs => ⟨?_, trivial⟩⟩
          cases piece <;> cases a <;> rfl

theorem emitted_append (h : Takes as ps) (qs : List Piece) (bs : List Argument) :
    emitted (ps ++ qs) (as ++ bs) = emitted ps as ++ emitted qs bs := by
  induction ps generalizing as with
  | nil =>
      have hnil : as = [] := List.map_eq_nil_iff.mp h.symm
      rw [hnil]
      rfl
  | cons piece ps ih =>
      obtain ⟨htail, hbs⟩ := h.cons
      obtain ⟨hprints, hrest⟩ := hbs bs
      rw [List.cons_append, emitted, emitted, hprints, hrest, ih htail, List.append_assoc]

/-! ## A directive inside a format

A directive is the same piece whatever stands before it, and behind it when that begins a piece of
its own. -/

theorem takeWhile_append_percent {f : UInt8 → Bool} {c : UInt8} (hc : f c = false) (cs rest : List UInt8) :
    (cs ++ c :: rest).takeWhile f = cs.takeWhile f ∧
      (cs ++ c :: rest).dropWhile f = cs.dropWhile f ++ c :: rest := by
  induction cs with
  | nil => simp [hc]
  | cons d cs ih =>
      rw [List.cons_append, List.takeWhile_cons, List.dropWhile_cons, List.takeWhile_cons, List.dropWhile_cons]
      cases f d with
      | true => exact ⟨congrArg (d :: ·) ih.1, ih.2⟩
      | false => exact ⟨rfl, rfl⟩

/-- What a piece is does not depend on a `%` that follows. -/
theorem nextPiece_append (hd : (nextPiece cs).1 ≠ .dangling) (rest : List UInt8) :
    nextPiece (cs ++ 37 :: rest) = ((nextPiece cs).1, (nextPiece cs).2 ++ 37 :: rest) := by
  cases cs with
  | nil => exact absurd rfl hd
  | cons c cs =>
      obtain ⟨htake, hdrop⟩ := takeWhile_append_percent (f := isDigit) (c := 37) (by decide) (c :: cs) rest
      rw [List.cons_append] at htake hdrop ⊢
      rw [nextPiece, nextPiece, htake, hdrop]
      split_ifs
      · rfl
      · rfl
      · rfl
      · cases (c :: cs).dropWhile isDigit with
        | nil => rfl
        | cons d ds =>
            rw [List.cons_append, widthPiece, widthPiece]
            split_ifs <;> rfl
      · rfl

theorem pieces_append (hd : .dangling ∉ pieces cs) (rest : List UInt8) :
    pieces (cs ++ 37 :: rest) = pieces cs ++ pieces (37 :: rest) := by
  obtain ⟨n, hn⟩ : ∃ n, cs.length = n := ⟨_, rfl⟩
  induction n using Nat.strong_induction_on generalizing cs with
  | _ n ih =>
      cases cs with
      | nil => rw [pieces_nil, List.nil_append, List.nil_append]
      | cons c cs =>
          rw [List.length_cons] at hn
          by_cases hc : c = 37
          · subst hc
            rw [pieces_percent, List.mem_cons, not_or] at hd
            have hle := (nextPiece_suffix cs).length_le
            rw [List.cons_append, pieces_percent, nextPiece_append (Ne.symm hd.1), pieces_percent cs,
              List.cons_append, ih (nextPiece cs).2.length (by omega) hd.2 rfl]
          · rw [pieces_text hc, List.mem_cons, not_or] at hd
            rw [List.cons_append, pieces_text hc, pieces_text hc, ih cs.length (by omega) hd.2 rfl,
              List.cons_append]

theorem isDigit_of_mem {c : UInt8} (hc : c ∈ digitChars n) : isDigit c = true := by
  obtain ⟨d, hd, rfl⟩ := digit_of_mem hc
  interval_cases d <;> decide

theorem widthOf_digitChars (hn : n < 2 ^ 31) : widthOf (digitChars n) 0 = n := by
  induction n using Nat.strong_induction_on with
  | _ n ih =>
      by_cases h0 : n = 0
      · rw [h0]
        rfl
      · have hpos : 0 < n := Nat.pos_of_ne_zero h0
        have hrest := ih (n / 10) (Nat.div_lt_self hpos (by decide)) (by omega)
        have hdigit := (digit_of_lt (Nat.mod_lt n (by decide : 0 < 10))).1
        rw [digitChars_pos hpos, widthOf, List.foldl_append]
        rw [widthOf] at hrest
        rw [hrest, List.foldl_cons, List.foldl_nil, Int.add_sub_assoc, hdigit,
          toInt32_of_bounds (by omega) (by omega)]
        omega

/-- The piece of `%Nd`. -/
theorem nextPiece_number (hN : 0 < N) (hlt : N < 2 ^ 31) (rest : List UInt8) :
    nextPiece (digitChars N ++ 100 :: rest) = (.paddedNumber N, rest) := by
  obtain ⟨htake, hdrop⟩ := takeWhile_append_percent (f := isDigit) (c := 100) (by decide) (digitChars N) rest
  have hall : ∀ c ∈ digitChars N, isDigit c = true := fun c hc => isDigit_of_mem hc
  rw [List.takeWhile_eq_self_iff.mpr hall] at htake
  rw [List.dropWhile_eq_nil_iff.mpr hall, List.nil_append] at hdrop
  cases hdigits : digitChars N with
  | nil =>
      have hlength := congrArg List.length hdigits
      rw [length_digitChars, length_digits_pos hN, List.length_nil] at hlength
      omega
  | cons c cs =>
      have hc := hall c (by rw [hdigits]; exact List.mem_cons_self)
      have hs : c ≠ 115 := by rintro rfl; cases hc
      have hch : c ≠ 99 := by rintro rfl; cases hc
      have hn : ¬ (c = 100 ∨ c = 105) := by rintro (rfl | rfl) <;> cases hc
      rw [hdigits, List.cons_append] at htake hdrop
      rw [List.cons_append, nextPiece, if_neg hs, if_neg hch, if_neg hn, if_pos hc, htake, hdrop,
        ← hdigits, widthOf_digitChars hlt, widthPiece]
      simp

/-! ## The field

The characters of a field by the code's own count of digits, against the text that should be
there. -/

/-- The canonical decimal text of a number, with its sign. -/
def decimalText (v : Int) : List UInt8 :=
  if v < 0 then 45 :: numeralChars v.natAbs else numeralChars v.natAbs

/-- The text at the right end of a field of width `N`. -/
def fieldText (N : Nat) (v : Int) : List UInt8 :=
  List.replicate (N - (decimalText v).length) 32 ++ decimalText v

/-- What `printf` prints for a width and a length. -/
theorem field_chars {N : Nat} (hN : N < 2 ^ 32) (length : Nat) (chars : List UInt8) :
    (Printed.field length N chars).chars = List.replicate (N - length) 32 ++ chars := by
  rw [Printed.field]
  split_ifs with hlt
  · have hblanks : (((N : Int) - length) % 2 ^ 32).toNat = N - length := by omega
    rw [Printed.behind, blanks, hblanks]
  · have hzero : N - length = 0 := by omega
    rw [Printed.plain, hzero, List.replicate_zero, List.nil_append]

theorem signedDigits_natCast (hn : 0 < n) : signedDigits n = digitChars n := by
  have hsign : (n : Int).sign = 1 := Int.sign_eq_one_of_pos (by exact_mod_cast hn)
  rw [signedDigits, hsign, Int.natAbs_natCast, digitChars]
  simp only [one_mul]

/-- Of the numbers that an `int` can have, `putNum` prints all but the least one. -/
theorem numChars_eq {v : Int} (hlo : -2 ^ 31 < v) (hhi : v < 2 ^ 31) : numChars v = decimalText v := by
  rw [numChars, decimalText]
  rcases lt_trichotomy v 0 with hneg | rfl | hpos
  · have habs : toInt32 (v * -1) = (v.natAbs : Int) := by
      rw [toInt32_of_bounds (by omega) (by omega)]
      omega
    rw [if_neg hneg.ne, if_pos hneg, if_pos hneg, habs, signedDigits_natCast (by omega),
      numeralChars_pos (by omega)]
  · rfl
  · have habs : v = (v.natAbs : Int) := by omega
    rw [if_neg hpos.ne', if_neg (by omega), if_neg (by omega), numeralChars_pos (by omega)]
    conv_lhs => rw [habs]
    exact signedDigits_natCast (by omega)

/-- The digits of the least `int` keep their sign, so the characters are not digits. -/
theorem numChars_min : ∃ xs, numChars (-2 ^ 31) = xs ++ [40] := by
  have hdigits : digits 2147483648 = digits 214748364 ++ [8] := digits_pos (by decide)
  have hwrap : toInt32 (-2 ^ 31 * -1) = -2147483648 := by decide
  have hsign : (-2147483648 : Int).sign = -1 := rfl
  have habs : (-2147483648 : Int).natAbs = 2147483648 := rfl
  rw [numChars, if_neg (by decide), if_pos (by decide), hwrap, signedDigits, hsign, habs, hdigits,
    List.map_append]
  exact ⟨45 :: _, rfl⟩

theorem decimalText_min : ∃ ys, decimalText (-2 ^ 31) = ys ++ [56] := by
  have hdigits : digits 2147483648 = digits 214748364 ++ [8] := digits_pos (by decide)
  have habs : (-2 ^ 31 : Int).natAbs = 2147483648 := by decide
  rw [decimalText, if_pos (by decide), habs, numeralChars_pos (by decide), digitChars, hdigits,
    List.map_append]
  exact ⟨45 :: _, rfl⟩

theorem length_decimalText {v : Int} (hv : v ≠ 0) : (decimalText v).length =
    (digits v.natAbs).length + if v < 0 then 1 else 0 := by
  rw [decimalText, numeralChars_pos (by omega)]
  split_ifs
  · rw [List.length_cons, length_digitChars]
  · rw [length_digitChars, Nat.add_zero]

/-- The field is right for the positive numbers, and for the negative ones that fill it. -/
theorem field_eq_iff (hN : 1 ≤ N) (hlt : N < 2 ^ 32) (v : Int32) :
    (Printed.field (digits v.toInt.natAbs).length N (numChars v.toInt)).chars = fieldText N v.toInt ↔
      0 < v.toInt ∨ v.toInt < 0 ∧ v.toInt ≠ -2 ^ 31 ∧ N ≤ (digits v.toInt.natAbs).length := by
  have hlo := v.le_toInt
  have hhi := v.toInt_lt
  rw [field_chars hlt, fieldText]
  -- The least number has no numeral of its own in either text.
  by_cases hmin : v.toInt = -2 ^ 31
  · refine iff_of_false (fun heq => ?_) (by omega)
    obtain ⟨xs, hxs⟩ := numChars_min
    obtain ⟨ys, hys⟩ := decimalText_min
    rw [hmin, hxs, hys, ← List.append_assoc, ← List.append_assoc] at heq
    exact absurd (List.append_inj_right' heq rfl) (by decide)
  · rw [numChars_eq (by omega) hhi, List.append_left_inj, List.replicate_inj]
    simp only [or_true, and_true]
    -- Zero is counted as having no digit.
    by_cases h0 : v.toInt = 0
    · rw [h0]
      have hone : (decimalText 0).length = 1 := rfl
      have hzero : (digits (Int.natAbs 0)).length = 0 := rfl
      rw [hone, hzero]
      omega
    · rw [length_decimalText h0]
      have hsome : 0 < (digits v.toInt.natAbs).length := by
        rw [length_digits_pos (by omega)]
        exact Nat.succ_pos _
      split_ifs <;> omega

/-! ## The directive -/

/-- The format with `%Nd` between two others. -/
def withNumber (pre : CString) (N : Nat) (post : CString) : CString where
  chars := pre.chars ++ 37 :: (digitChars N ++ 100 :: post.chars)
  ended := by
    have hdigits := zero_notMem_digitChars N
    simp [pre.ended, post.ended, hdigits]

/-- For `%Nd` in a format `printf` prints the field of the number, between what it prints for the parts
of the format around. -/
def PrintsField (pre post : CString) (as bs : List Argument) (N : Nat) (v : Int32) : Prop :=
  ∃ out₁ out₂, Emits pre as out₁ ∧ Emits post bs out₂ ∧
    Emits (withNumber pre N post) (as ++ .int v :: bs) (out₁ ++ fieldText N v.toInt ++ out₂)

section Directive

variable {pre post : CString} (hpre : Takes as (pieces pre.chars)) (hpost : Supplies bs (pieces post.chars))
  (hdpre : .dangling ∉ pieces pre.chars) (hdpost : .dangling ∉ pieces post.chars)

include hpre hpost hdpre hdpost

theorem printsField_iff_field (hN : 1 ≤ N) (hlt : N < 2 ^ 31) (v : Int32) :
    PrintsField pre post as bs N v ↔
      (Printed.field (digits v.toInt.natAbs).length N (numChars v.toInt)).chars = fieldText N v.toInt := by
  -- The format is the text in front, the directive and the text behind.
  have hpieces : pieces (withNumber pre N post).chars =
      pieces pre.chars ++ .paddedNumber N :: pieces post.chars := by
    rw [withNumber, pieces_append hdpre, pieces_percent, nextPiece_number hN hlt]
  have hsupplies : Supplies (as ++ .int v :: bs) (pieces (withNumber pre N post).chars) := by
    rw [hpieces, Supplies, List.filterMap_append, hpre, List.map_append, List.prefix_append_right_inj]
    exact List.cons_prefix_cons.mpr ⟨rfl, hpost⟩
  have hd : .dangling ∉ pieces (withNumber pre N post).chars := by
    rw [hpieces, List.mem_append, List.mem_cons]
    rintro (h | h | h)
    · exact hdpre h
    · cases h
    · exact hdpost h
  have hpre' : Supplies as (pieces pre.chars) := by
    rw [Supplies, hpre]
  have hout := emits_iff (withNumber pre N post) hsupplies hd
  rw [hpieces, emitted_append hpre] at hout
  have hfield : (Piece.prints (.paddedNumber N) (.int v :: bs)).chars =
      (Printed.field (digits v.toInt.natAbs).length N (numChars v.toInt)).chars := rfl
  have hsame : ∀ out, out = emitted (pieces pre.chars) as ++
        emitted (.paddedNumber N :: pieces post.chars) (.int v :: bs) ↔
      out = emitted (pieces pre.chars) as ++
        (Printed.field (digits v.toInt.natAbs).length N (numChars v.toInt)).chars ++
        emitted (pieces post.chars) bs := by
    intro out
    rw [emitted, Piece.rest_of_some (k := .int) rfl, hfield, List.append_assoc]
  -- All three outputs are determined, and the ends can be taken off.
  simp only [PrintsField, emits_iff pre hpre' hdpre, emits_iff post hpost hdpost, hout, hsame]
  constructor
  · rintro ⟨_, _, rfl, rfl, h⟩
    exact (List.append_cancel_left (List.append_cancel_right h)).symm
  · intro h
    exact ⟨_, _, rfl, rfl, by rw [h]⟩

/-- `printf` prints the field of a number for the positive numbers, and for the negative ones that fill it
and are not the least one. -/
theorem printf_width_iff (hN : 1 ≤ N) (hN' : N ≤ 1000) (v : Int32) :
    PrintsField pre post as bs N v ↔
      0 < v.toInt ∨ v.toInt < 0 ∧ v.toInt ≠ -2 ^ 31 ∧ N ≤ (digits v.toInt.natAbs).length := by
  rw [printsField_iff_field hpre hpost hdpre hdpost hN (by omega), field_eq_iff hN (by omega)]

end Directive

theorem emptyFormat (args : List Argument) :
    Takes [] (pieces []) ∧ Supplies args (pieces []) ∧ Piece.dangling ∉ pieces [] := by
  rw [pieces_nil]
  exact ⟨rfl, List.nil_prefix, List.not_mem_nil⟩

/-- The number 42 in a field of width 5. -/
theorem printf_width_forty_two : PrintsField ⟨[], by decide⟩ ⟨[], by decide⟩ [] [] 5 42 :=
  (printf_width_iff (emptyFormat []).1 (emptyFormat []).2.1 (emptyFormat []).2.2 (emptyFormat []).2.2
    (by decide) (by decide) 42).mpr (.inl (by decide))

/-- Zero in a field of width 3 takes four characters. -/
theorem printf_width_zero : ¬ PrintsField ⟨[], by decide⟩ ⟨[], by decide⟩ [] [] 3 0 := by
  rw [printsField_iff_field (emptyFormat []).1 (emptyFormat []).2.1 (emptyFormat []).2.2
    (emptyFormat []).2.2 (by decide) (by decide), field_eq_iff (by decide) (by decide)]
  decide

end BasicKernel
