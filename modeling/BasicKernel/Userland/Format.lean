import BasicKernel.Userland.Printf

set_option autoImplicit false

/-! # Formats

A format is a list of pieces: characters that are copied, and directives. `printf` runs over it with an
index that four loops move; what it does is to take the pieces one after the other, and each of them adds
its characters to the output.

Here are the pieces and what each of them prints, and in `Userland/FormatRun.lean` the proof that
`printf` does that.
-/

namespace BasicKernel

open Linked Fuel Decimal

/-! ## The pieces

A format is cut at its `%`. What stands behind one decides how far the piece goes. -/

/-- `skipped` is a `%` with a width but no letter that is known: both the `%` and the first digit are lost.
`dangling` is a `%` at the end of the format. -/
inductive Piece where
  | text (c : UInt8)
  | string
  | character
  | number
  | paddedString (width : Int)
  | paddedNumber (width : Int)
  | paddedCharacter (width : Int)
  | unknown (c : UInt8)
  | skipped
  | dangling
  deriving DecidableEq, Repr

/-- The width that the digits stand for, as an `int`. -/
def widthOf (ds : List UInt8) (margen : Int) : Int :=
  ds.foldl (fun margen c => toInt32 (margen * 10 + charValue c - 48)) margen

/-- The piece behind the digits of a width. Without a letter that is known the text `cs` behind the first
digit comes next. -/
def widthPiece (margen : Int) (cs : List UInt8) : List UInt8 → Piece × List UInt8
  | [] => (.skipped, cs)
  | d :: ds =>
      if d = 115 then (.paddedString margen, ds)
      else if d = 100 ∨ d = 105 then (.paddedNumber margen, ds)
      else if d = 99 then (.paddedCharacter margen, ds)
      else (.skipped, cs)

/-- The piece behind a `%`, and the rest of the format. -/
def nextPiece : List UInt8 → Piece × List UInt8
  | [] => (.dangling, [])
  | c :: cs =>
      if c = 115 then (.string, cs)
      else if c = 99 then (.character, cs)
      else if c = 100 ∨ c = 105 then (.number, cs)
      else if isDigit c then
        widthPiece (widthOf ((c :: cs).takeWhile isDigit) 0) cs ((c :: cs).dropWhile isDigit)
      else (.unknown c, cs)

/-- What is left behind a piece is an end of the format. -/
theorem nextPiece_suffix (cs : List UInt8) : (nextPiece cs).2 <:+ cs := by
  cases cs with
  | nil => exact List.suffix_refl []
  | cons c cs =>
      have hcs : cs <:+ c :: cs := List.suffix_cons c cs
      rw [nextPiece]
      split_ifs
      · exact hcs
      · exact hcs
      · exact hcs
      · have hds : (c :: cs).dropWhile isDigit <:+ c :: cs := List.dropWhile_suffix _
        cases hafter : (c :: cs).dropWhile isDigit with
        | nil => exact hcs
        | cons d ds =>
            rw [hafter] at hds
            have hds' : ds <:+ c :: cs := (List.suffix_cons d ds).trans hds
            rw [widthPiece]
            split_ifs
            · exact hds'
            · exact hds'
            · exact hds'
            · exact hcs
      · exact hcs

/-- The pieces of a format. -/
def pieces : List UInt8 → List Piece
  | [] => []
  | c :: cs => if c = 37 then (nextPiece cs).1 :: pieces (nextPiece cs).2 else .text c :: pieces cs
termination_by cs => cs.length
decreasing_by
  · exact Nat.lt_succ_of_le (nextPiece_suffix cs).length_le
  · exact Nat.lt_succ_self _

@[simp] theorem pieces_nil : pieces [] = [] := by
  rw [pieces]

theorem pieces_percent (cs : List UInt8) :
    pieces (37 :: cs) = (nextPiece cs).1 :: pieces (nextPiece cs).2 := by
  rw [pieces, if_pos rfl]

theorem pieces_text {c : UInt8} (hc : c ≠ 37) (cs : List UInt8) : pieces (c :: cs) = .text c :: pieces cs := by
  rw [pieces, if_neg hc]

theorem pieces_text_append {text : List UInt8} (htext : 37 ∉ text) (cs : List UInt8) :
    pieces (text ++ cs) = text.map Piece.text ++ pieces cs := by
  induction text with
  | nil => rfl
  | cons c text ih =>
      rw [List.mem_cons, not_or] at htext
      obtain ⟨hc, htext⟩ := htext
      rw [List.cons_append, pieces_text (Ne.symm hc), ih htext]
      rfl

/-! ## What a piece prints

What the code prints for each piece, without its loops. For some numbers it is not what one
expects. -/

/-- The kinds of arguments. -/
inductive Kind where
  | int
  | string
  deriving DecidableEq, Repr

def Argument.kind : Argument → Kind
  | int _ => .int
  | string _ => .string

namespace Piece

/-- The kind of argument that the piece takes, if any. -/
def takes : Piece → Option Kind
  | string | paddedString _ => some .string
  | character | number | paddedNumber _ | paddedCharacter _ => some .int
  | text _ | unknown _ | skipped | dangling => none

end Piece

/-- The arguments begin with one of the right kind for each piece that takes one. -/
def Supplies (args : List Argument) (ps : List Piece) : Prop :=
  ps.filterMap Piece.takes <+: args.map Argument.kind

/-- The digits of a number that is not zero, with its sign in each of them. -/
def signedDigits (num : Int) : List UInt8 := (digits num.natAbs).map fun d : Nat => digit (num.sign * (d : Int))

/-- The characters that `putNum` prints. -/
def numChars (num : Int) : List UInt8 :=
  if num = 0 then [48]
  else if num < 0 then 45 :: signedDigits (toInt32 (num * -1))
  else signedDigits num

/-- The blanks of a padding loop that starts with the value `margen`. A negative counter wraps. -/
def blanks (margen : Int) : List UInt8 := List.replicate (margen % 2 ^ 32).toNat 32

/-- What a piece adds to the output, and what it adds to the record of the padding loops. -/
structure Printed where
  chars : List UInt8
  belowZero : Bool
  paddings : List (Int × Nat)

namespace Printed

def plain (chars : List UInt8) : Printed := ⟨chars, false, []⟩

/-- The characters behind a padding loop. -/
def behind (width margen : Int) (chars : List UInt8) : Printed :=
  ⟨blanks margen ++ chars, decide (margen < 0), [(width, (blanks margen).length)]⟩

/-- The characters at the right end of a field, where `length` is what the code takes for their number. -/
def field (length margen : Int) (chars : List UInt8) : Printed :=
  if length < margen then behind margen (margen - length) chars else plain chars

end Printed

namespace Piece

def prints : Piece → List Argument → Printed
  | text c, _ => .plain [c]
  | string, .string word :: _ => .plain word.chars
  | character, .int v :: _ => .plain [toChar v.toInt]
  | number, .int v :: _ => .plain (numChars v.toInt)
  | paddedString margen, .string word :: _ => .field word.length margen word.chars
  | paddedNumber margen, .int v :: _ => .field (digits v.toInt.natAbs).length margen (numChars v.toInt)
  | paddedCharacter margen, .int v :: _ => .behind margen (toInt32 (margen - 1)) [toChar v.toInt]
  | unknown c, _ => .plain [37, c]
  | _, _ => .plain []

/-- The arguments behind the piece. -/
def rest (piece : Piece) (args : List Argument) : List Argument :=
  if piece.takes.isSome then args.tail else args

end Piece

/-- The printer with something added. -/
def Printer.add (p : Printer) (x : Printed) : Printer :=
  { p with
    output := p.output ++ x.chars
    belowZero := p.belowZero || x.belowZero
    paddings := p.paddings ++ x.paddings }

/-- The printer after a piece. -/
def Printer.after (p : Printer) (piece : Piece) : Printer :=
  { p.add (piece.prints p.parameters) with parameters := piece.rest p.parameters }

/-! ## Numbers

The digits are taken with the remainder of C, so those of a negative number are negative. -/

theorem int_natAbs_lt (v : Int32) : v.toInt.natAbs < 10 ^ 10 := by
  have hlo := v.le_toInt
  have hhi := v.toInt_lt
  omega

/-- The digits of a number and of its negation, which C takes with the sign of the number. -/
theorem storeDigits_returns {σ : Int} (hσ : σ = 1 ∨ σ = -1) (n : Nat) (buffer : List Int)
    (h : buffer.length + (digits n).length ≤ 100) :
    Returns (storeDigits · (σ * n) buffer)
      (buffer ++ ((digits n).map fun d : Nat => σ * (d : Int)).reverse) := by
  -- By strong induction on the number, with the digits that are stored already in front.
  induction n using Nat.strong_induction_on generalizing buffer with
  | _ n ih =>
      by_cases hn : n = 0
      · subst hn
        refine .succ rfl (fun fuel => ?_) (.const _ _)
        simp [storeDigits]
      · have hpos : 0 < n := Nat.pos_of_ne_zero hn
        have hne : σ * n ≠ 0 := by
          rcases hσ with rfl | rfl <;> omega
        -- Quotient and remainder of C round to zero, hence keep the sign.
        have hdiv : (σ * n).tdiv 10 = σ * ((n / 10 : Nat) : Int) := by
          rcases hσ with rfl | rfl
          · rw [one_mul, one_mul, tdiv_ten]
          · rw [neg_one_mul, neg_one_mul, Int.neg_tdiv, tdiv_ten]
        have hmod : (σ * n).tmod 10 = σ * ((n % 10 : Nat) : Int) := by
          rcases hσ with rfl | rfl
          · rw [one_mul, one_mul, tmod_ten]
          · rw [neg_one_mul, neg_one_mul, Int.neg_tmod, tmod_ten]
        -- One cell is used, and the rest has one digit less.
        rw [length_digits_pos hpos] at h
        have hrest := ih (n / 10) (Nat.div_lt_self hpos (by decide)) (buffer ++ [(σ * n).tmod 10])
          (by rw [List.length_append, List.length_singleton]; omega)
        rw [digits_pos hpos, List.map_append, List.reverse_append]
        rw [List.append_assoc, hmod] at hrest
        refine .succ rfl (fun fuel => ?_) hrest
        rw [storeDigits, if_neg hne, if_pos (by omega), hdiv, hmod]

theorem putDigits_returns {num : Int} (hnum : num ≠ 0) (hlt : num.natAbs < 10 ^ 10) (p : Printer) :
    Returns (putDigits · num p) { p with output := p.output ++ signedDigits num } := by
  have hσ : num.sign = 1 ∨ num.sign = -1 := by
    rcases lt_or_gt_of_ne hnum with hneg | hpos
    · exact .inr (Int.sign_eq_neg_one_of_neg hneg)
    · exact .inl (Int.sign_eq_one_of_pos hpos)
  have hlength := length_digits_le hlt
  have hstore := storeDigits_returns hσ num.natAbs [] (by rw [List.length_nil]; omega)
  rw [Int.sign_mul_natAbs] at hstore
  refine hstore.bind ?_
  simp only [List.nil_append, List.reverse_reverse, List.map_map, pure_eq_ok]
  exact .const _ _

theorem putNum_returns (v : Int32) (p : Printer) :
    Returns (putNum · v.toInt p) { p with output := p.output ++ numChars v.toInt } := by
  have hlo := v.le_toInt
  have hhi := v.toInt_lt
  by_cases h0 : v.toInt = 0
  · simp only [putNum, numChars, if_pos h0]
    exact .const _ _
  · by_cases hneg : v.toInt < 0
    · have hne : toInt32 (v.toInt * -1) ≠ 0 := by
        rw [toInt32, Int.bmod_def]
        split <;> omega
      have hbounds := toInt32_bounds (v.toInt * -1)
      have hputs := putDigits_returns hne (by omega) (p.putchar 45)
      simp only [putNum, numChars, if_neg h0, if_pos hneg]
      rw [Printer.putchar, List.append_assoc] at hputs
      exact hputs
    · simp only [putNum, numChars, if_neg h0, if_neg hneg]
      exact putDigits_returns h0 (int_natAbs_lt v) p

theorem countDigits_natAbs (number length : Int) :
    Returns (countDigits · number length) (length + ((digits number.natAbs).length : Int)) := by
  rcases Int.natAbs_eq number with h | h
  · rw [h]
    exact countDigits_returns number.natAbs length
  · have hneg : ∀ fuel (n : Nat) (length : Int), countDigits fuel (-(n : Int)) length = countDigits fuel n length := by
      intro fuel
      induction fuel with
      | zero => exact fun _ _ => rfl
      | succ fuel ih =>
          intro n length
          simp only [countDigits, Int.neg_tdiv, tdiv_ten, ih, neg_eq_zero]
    rw [h]
    simp only [hneg, Int.natAbs_neg, Int.natAbs_natCast]
    exact countDigits_returns number.natAbs length

/-! ## Padding

The counter goes down to 0 and does not stop below it. -/

/-- The loop prints as many blanks as the counter says, modulo `2^32`. The induction is on this number,
and a negative counter is in the record from the start. -/
theorem pad_returns {margen : Int} (hlo : -2 ^ 31 ≤ margen) (hhi : margen < 2 ^ 31) (p : Printer)
    (hp : margen < 0 → p.belowZero = true) :
    Returns (pad · margen p) { p with output := p.output ++ blanks margen } := by
  obtain ⟨u, hu⟩ : ∃ u, (margen % 2 ^ 32).toNat = u := ⟨_, rfl⟩
  rw [blanks, hu]
  induction u generalizing margen p with
  | zero =>
      obtain rfl : margen = 0 := by omega
      rw [List.replicate_zero, List.append_nil]
      exact .succ rfl (fun fuel => if_pos rfl) (.const _ _)
  | succ u ih =>
      have hne : margen ≠ 0 := by
        rintro rfl
        simp at hu
      have hbounds := toInt32_bounds (margen - 1)
      have hnext : (toInt32 (margen - 1) % 2 ^ 32).toNat = u := by
        rw [toInt32, Int.bmod_def]
        split <;> omega
      have hflag : ((p.putchar 32).counts (toInt32 (margen - 1))) =
          { p with output := p.output ++ [32] } := by
        have hbelow : (p.belowZero || decide (toInt32 (margen - 1) < 0)) = p.belowZero := by
          cases hpb : p.belowZero with
          | true => rfl
          | false =>
              have hpos : 0 < margen := by
                by_contra hcon
                rw [hp (by omega)] at hpb
                cases hpb
              rw [toInt32_of_bounds (by omega) (by omega)]
              simp
              omega
        rw [Printer.counts, Printer.putchar, hbelow]
      have hrest := ih hbounds.1 hbounds.2 ((p.putchar 32).counts (toInt32 (margen - 1)))
        (fun hneg => by simp [Printer.counts, hneg]) hnext
      rw [hflag, List.append_assoc, List.singleton_append, ← List.replicate_succ] at hrest
      refine .succ rfl (fun fuel => ?_) hrest
      rw [pad, if_neg hne, hflag]

theorem padFrom_returns {margen : Int} (hlo : -2 ^ 31 ≤ margen) (hhi : margen < 2 ^ 31) (width : Int)
    (p : Printer) : Returns (padFrom · width margen p) (p.add (.behind width margen [])) := by
  have hpad := pad_returns hlo hhi (p.counts margen) fun hneg => by simp [Printer.counts, hneg]
  refine hpad.bind ?_
  simp only [Printer.counts, List.length_append, Nat.add_sub_cancel_left, Printer.add, Printed.behind,
    List.append_nil]
  exact .const _ _

theorem padTo_returns {length : Nat} {margen : Int} (hhi : margen < 2 ^ 31) (p : Printer) :
    Returns (padTo · length margen p) (p.add (.field length margen [])) := by
  by_cases hlt : (length : Int) < margen
  · simp only [padTo, if_pos hlt, Printed.field]
    exact padFrom_returns (by omega) (by omega) margen p
  · simp only [padTo, if_neg hlt, Printed.field, Printed.plain, Printer.add, List.append_nil, Bool.or_false]
    exact .const _ _

end BasicKernel
