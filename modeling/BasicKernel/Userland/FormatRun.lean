import BasicKernel.Userland.Format
import Mathlib.Data.List.TakeWhile

set_option autoImplicit false

/-! # `printf` on a format

What each piece of a format prints, and the loops of `printf` over the pieces.

`printf_returns` is the result for formats without a dangling `%`, and `printf_never` for the
others. `Userland/Padding.lean` and `Userland/Widths.lean` ask when the output is right.
-/

namespace BasicKernel

open Linked Fuel Decimal

/-! ## The run of a piece -/

variable {p p' : Printer} {piece : Piece} {ps : List Piece} {args : List Argument}
  {region cs chunk rest : List UInt8} {i : Nat}

theorem Printer.add_field (length margen : Int) (chars : List UInt8) (p : Printer) :
    { p.add (.field length margen []) with output := (p.add (.field length margen [])).output ++ chars } =
      p.add (.field length margen chars) := by
  simp only [Printer.add, Printed.field]
  split_ifs <;> simp [Printed.behind, Printed.plain]

namespace Piece

def width : Piece → Int
  | paddedString margen | paddedNumber margen | paddedCharacter margen => margen
  | _ => 0

/-- What `printf` does for the piece. -/
def run (fuel : Nat) : Piece → Printer → Except Stop Printer
  | text c, p => .ok (p.putchar c)
  | string, p => putString p
  | character, p => putCharacter p
  | number, p => putNumber fuel p
  | paddedString margen, p => putPaddedString fuel margen p
  | paddedNumber margen, p => putPaddedNumber fuel margen p
  | paddedCharacter margen, p => putPaddedCharacter fuel margen p
  | unknown c, p => .ok ((p.putchar 37).putchar c)
  | skipped, p => .ok p
  | dangling, p => .ok ((p.putchar 37).putchar 0)

end Piece

theorem Supplies.cons (h : Supplies args (piece :: ps)) :
    (∀ k, piece.takes = some k → ∃ a args', args = a :: args' ∧ a.kind = k) ∧
      Supplies (piece.rest args) ps := by
  rw [Supplies, List.filterMap_cons] at h
  rw [Piece.rest]
  cases htakes : piece.takes with
  | none =>
      rw [htakes] at h
      exact ⟨fun k hk => (by cases hk), h⟩
  | some k =>
      rw [htakes] at h
      cases args with
      | nil => simp at h
      | cons a args =>
          rw [List.map_cons] at h
          obtain ⟨hkind, htail⟩ := List.cons_prefix_cons.mp h
          exact ⟨fun k' hk' => ⟨a, args, rfl, by rw [← hkind, Option.some.inj hk']⟩, htail⟩

theorem Argument.eq_int {a : Argument} (h : a.kind = .int) : ∃ v, a = .int v := by
  cases a with
  | int v => exact ⟨v, rfl⟩
  | string word => cases h

theorem Argument.eq_string {a : Argument} (h : a.kind = .string) : ∃ word, a = .string word := by
  cases a with
  | int v => cases h
  | string word => exact ⟨word, rfl⟩

/-- With an argument of the right kind every piece but a dangling one prints what it should. -/
theorem Piece.run_returns (hwidth : piece.width < 2 ^ 31) (hd : piece ≠ .dangling)
    (hargs : ∀ k, piece.takes = some k → ∃ a args, p.parameters = a :: args ∧ a.kind = k) :
    Returns (piece.run · p) (p.after piece) := by
  obtain ⟨output, parameters, belowZero, paddings⟩ := p
  -- An argument of the right kind is the next one of the list.
  have hint : piece.takes = some .int → ∃ v args, parameters = .int v :: args := by
    intro htakes
    obtain ⟨a, args, rfl, hkind⟩ := hargs _ htakes
    obtain ⟨v, rfl⟩ := Argument.eq_int hkind
    exact ⟨v, args, rfl⟩
  have hstring : piece.takes = some .string → ∃ word args, parameters = .string word :: args := by
    intro htakes
    obtain ⟨a, args, rfl, hkind⟩ := hargs _ htakes
    obtain ⟨word, rfl⟩ := Argument.eq_string hkind
    exact ⟨word, args, rfl⟩
  -- One case for each piece, with the same three shapes: nothing taken, one taken, one taken and
  -- padded.
  cases piece with
  | text c =>
      simp only [Piece.run, Printer.after, Piece.prints.eq_def, Printed.plain, Printer.add, Piece.rest, Piece.takes]
      simp only [Bool.or_false, List.append_nil]
      exact .const _ _
  | string =>
      obtain ⟨word, args, rfl⟩ := hstring rfl
      simp only [Printer.after, Piece.prints.eq_def, Printed.plain, Printer.add, Bool.or_false, List.append_nil]
      exact .const _ _
  | character =>
      obtain ⟨v, args, rfl⟩ := hint rfl
      simp only [Printer.after, Piece.prints.eq_def, Printed.plain, Printer.add, Bool.or_false, List.append_nil]
      exact .const _ _
  | number =>
      obtain ⟨v, args, rfl⟩ := hint rfl
      simp only [Printer.after, Piece.prints.eq_def, Printed.plain, Printer.add, Bool.or_false, List.append_nil]
      exact putNum_returns v _
  | paddedString margen =>
      obtain ⟨word, args, rfl⟩ := hstring rfl
      have hmargen : margen < 2 ^ 31 := hwidth
      have hfield := Printer.add_field word.length margen word.chars ⟨output, args, belowZero, paddings⟩
      simp only [Printer.after, Piece.prints.eq_def, Piece.rest, Piece.takes]
      -- The length is counted, the field filled, and the word printed behind it.
      refine (strlen_returns word).bind ((padTo_returns hmargen _).bind ?_)
      rw [Printer.printString]
      simp only [pure_eq_ok, hfield]
      exact .const _ _
  | paddedNumber margen =>
      obtain ⟨v, args, rfl⟩ := hint rfl
      have hfield := Printer.add_field (digits v.toInt.natAbs).length margen (numChars v.toInt)
        ⟨output, args, belowZero, paddings⟩
      -- The digits are counted without the sign, and zero as none.
      have hcount := countDigits_natAbs v.toInt 0
      rw [zero_add] at hcount
      refine hcount.bind ((padTo_returns hwidth _).bind ?_)
      have hput := putNum_returns v
        (Printer.add ⟨output, args, belowZero, paddings⟩ (.field (digits v.toInt.natAbs).length margen []))
      rw [hfield] at hput
      exact hput
  | paddedCharacter margen =>
      obtain ⟨v, args, rfl⟩ := hint rfl
      have hbounds := toInt32_bounds (margen - 1)
      refine (padFrom_returns hbounds.1 hbounds.2 margen _).bind ?_
      simp only [Printer.nextInt, Printer.add, ok_bind, Printer.putchar, pure_eq_ok, Printer.after,
        Piece.prints.eq_def, Printed.behind, List.append_nil, List.append_assoc]
      exact .const _ _
  | unknown c =>
      simp only [Piece.run, Printer.putchar, Printer.after, Piece.prints.eq_def, Printed.plain, Printer.add,
        Piece.rest, Piece.takes, Bool.or_false, List.append_nil, List.append_assoc]
      exact .const _ _
  | skipped =>
      simp only [Piece.run, Printer.after, Piece.prints.eq_def, Printed.plain, Printer.add, Piece.rest, Piece.takes,
        Bool.or_false, List.append_nil]
      exact .const _ _
  | dangling => exact absurd rfl hd

/-! ## The loops

The index in the format is followed from piece to piece, and what is left behind it is the rest of
the format. -/

theorem charAt_of_drop {c : UInt8} (h : region.drop i = c :: rest) :
    charAt region i = .ok c ∧ region.drop (i + 1) = rest := by
  constructor
  · have hget : region[i]? = some c := by
      rw [← Nat.add_zero i, ← List.getElem?_drop, h]
      rfl
    rw [charAt, hget]
  · rw [← List.tail_drop, h, List.tail_cons]

theorem drop_add_of_drop (h : region.drop i = chunk ++ rest) : region.drop (i + chunk.length) = rest := by
  rw [← List.drop_drop, h, List.drop_left]

theorem readWidth_returns {c : UInt8} {ds : List UInt8} (margen : Int) (j : Nat)
    (hregion : region.drop i = ds ++ c :: rest) (hds : ∀ d ∈ ds, isDigit d = true) (hc : isDigit c = false) :
    Returns (readWidth region · (i, margen, j)) (i + ds.length, widthOf ds margen, j + ds.length) := by
  induction ds generalizing i margen j with
  | nil =>
      apply walkWhile_stop
      simp [(charAt_of_drop hregion).1, hc]
  | cons d ds ih =>
      obtain ⟨hd, htail⟩ := charAt_of_drop hregion
      have hrest := ih (toInt32 (margen * 10 + charValue d - 48)) (j + 1) htail
        fun d' hd' => hds d' (List.mem_cons_of_mem d hd')
      rw [List.length_cons, Nat.add_comm ds.length 1, ← Nat.add_assoc, ← Nat.add_assoc]
      refine walkWhile_go ?_ ?_ hrest
      · simp [hd, hds d List.mem_cons_self]
      · simp [hd]

theorem copyText_returns {c : UInt8} (hregion : region.drop i = chunk ++ c :: rest) (h0 : 0 ∉ chunk)
    (h37 : 37 ∉ chunk) (hc : c = 0 ∨ c = 37) :
    Returns (copyText region · (i, p)) (i + chunk.length, { p with output := p.output ++ chunk }) := by
  induction chunk generalizing i p with
  | nil =>
      rw [List.append_nil]
      apply walkWhile_stop
      rcases hc with rfl | rfl <;> simp [(charAt_of_drop hregion).1]
  | cons d chunk ih =>
      rw [List.mem_cons, not_or] at h0 h37
      obtain ⟨hd0, h0⟩ := h0
      obtain ⟨hd37, h37⟩ := h37
      obtain ⟨hd, htail⟩ := charAt_of_drop hregion
      have hrest := ih (p := p.putchar d) htail h0 h37
      rw [Printer.putchar, List.append_assoc, List.singleton_append] at hrest
      rw [List.length_cons, Nat.add_comm chunk.length 1, ← Nat.add_assoc]
      refine walkWhile_go ?_ ?_ hrest
      · simp [hd, Ne.symm hd0, Ne.symm hd37]
      · simp [hd, Printer.putchar]

/-- The branch for a width, where `cs` is the text behind the first digit. -/
theorem widthDirective_returns {c : UInt8} (hregion : region.drop i = c :: cs ++ [0])
    (htail : region.drop (i + 1) = cs ++ [0])
    (hrun : Returns ((widthPiece (widthOf ((c :: cs).takeWhile isDigit) 0) cs
      ((c :: cs).dropWhile isDigit)).1.run · p) p') :
    ∃ i', region.drop (i' + 1) = (widthPiece (widthOf ((c :: cs).takeWhile isDigit) 0) cs
        ((c :: cs).dropWhile isDigit)).2 ++ [0] ∧
      Returns (widthDirective region · i p) (i', p') := by
  -- What is read first are the digits of the width, up to the first other character.
  have hdigits : ∀ d ∈ (c :: cs).takeWhile isDigit, isDigit d = true := fun d hd => List.mem_takeWhile_imp hd
  have hsplit := List.takeWhile_append_dropWhile (p := isDigit) (l := c :: cs)
  rw [← hsplit, List.append_assoc] at hregion
  generalize (c :: cs).takeWhile isDigit = ds at hrun hregion hdigits ⊢
  -- without a letter that is known the index goes back to the first digit
  have hback : (fun fuel => do
      let r ← readWidth region fuel (i, 0, 0)
      let c ← charAt region r.1
      if c = 115 then return (r.1, ← putPaddedString fuel r.2.1 p)
      else if c = 100 ∨ c = 105 then return (r.1, ← putPaddedNumber fuel r.2.1 p)
      else if c = 99 then return (r.1, ← putPaddedCharacter fuel r.2.1 p)
      else return (r.1 - r.2.2, p)) = (widthDirective region · i p) := rfl
  rw [← hback]
  cases hafter : (c :: cs).dropWhile isDigit with
  -- The format ends behind the digits.
  | nil =>
      rw [hafter] at hrun hregion
      obtain ⟨fuel, hok⟩ := hrun.exists_fuel
      have hread := readWidth_returns 0 0 hregion hdigits rfl
      refine ⟨i, htail, hread.bind ?_⟩
      rw [← Except.ok.inj hok]
      simp only [(charAt_of_drop (drop_add_of_drop hregion)).1, ok_bind, Nat.zero_add,
        Nat.add_sub_cancel]
      exact .const _ _
  -- A letter follows, known or not.
  | cons d es =>
      rw [hafter] at hrun hregion
      have hd : isDigit d = false := by
        have hhead := List.head?_dropWhile_not isDigit (c :: cs)
        rw [hafter] at hhead
        simpa using hhead
      have hread := readWidth_returns 0 0 hregion hdigits hd
      obtain ⟨hletter, hes⟩ := charAt_of_drop (drop_add_of_drop hregion)
      rw [widthPiece] at hrun ⊢
      by_cases hs : d = 115
      · simp only [if_pos hs] at hrun ⊢
        refine ⟨i + ds.length, hes, hread.bind ?_⟩
        simp only [hletter, ok_bind, if_pos hs]
        exact hrun.bind (.const _ _)
      simp only [if_neg hs] at hrun ⊢
      by_cases hn : d = 100 ∨ d = 105
      · simp only [if_pos hn] at hrun ⊢
        refine ⟨i + ds.length, hes, hread.bind ?_⟩
        simp only [hletter, ok_bind, if_neg hs, if_pos hn]
        exact hrun.bind (.const _ _)
      simp only [if_neg hn] at hrun ⊢
      by_cases hch : d = 99
      · simp only [if_pos hch] at hrun ⊢
        refine ⟨i + ds.length, hes, hread.bind ?_⟩
        simp only [hletter, ok_bind, if_neg hs, if_neg hn, if_pos hch]
        exact hrun.bind (.const _ _)
      · simp only [if_neg hch] at hrun ⊢
        obtain ⟨fuel, hok⟩ := hrun.exists_fuel
        refine ⟨i, htail, hread.bind ?_⟩
        rw [← Except.ok.inj hok]
        simp only [hletter, ok_bind, if_neg hs, if_neg hn, if_neg hch, Nat.zero_add, Nat.add_sub_cancel]
        exact .const _ _

/-- The index behind a directive is where the rest of the format starts. -/
theorem directive_returns (hregion : region.drop i = cs ++ [0]) (hd : (nextPiece cs).1 ≠ .dangling)
    (hrun : Returns ((nextPiece cs).1.run · p) p') :
    ∃ i', region.drop (i' + 1) = (nextPiece cs).2 ++ [0] ∧ Returns (directive region · i p) (i', p') := by
  cases cs with
  | nil => exact absurd rfl hd
  | cons c cs =>
      -- The tests of the source one after the other, with the piece that each of them selects.
      obtain ⟨hc, htail⟩ := charAt_of_drop hregion
      simp only [directive, hc, ok_bind]
      rw [nextPiece] at hrun ⊢
      by_cases hs : c = 115
      · simp only [if_pos hs] at hrun ⊢
        exact ⟨i, htail, hrun.bind (.const _ _)⟩
      simp only [if_neg hs] at hrun ⊢
      by_cases hch : c = 99
      · simp only [if_pos hch] at hrun ⊢
        exact ⟨i, htail, hrun.bind (.const _ _)⟩
      simp only [if_neg hch] at hrun ⊢
      by_cases hn : c = 100 ∨ c = 105
      · simp only [if_pos hn] at hrun ⊢
        exact ⟨i, htail, hrun.bind (.const _ _)⟩
      simp only [if_neg hn] at hrun ⊢
      by_cases hdigit : isDigit c = true
      · simp only [if_pos hdigit] at hrun ⊢
        exact widthDirective_returns hregion htail hrun
      · simp only [if_neg hdigit] at hrun ⊢
        refine ⟨i, htail, ?_⟩
        obtain ⟨fuel, hok⟩ := hrun.exists_fuel
        rw [← Except.ok.inj hok]
        exact .const _ _

theorem widthPiece_ne_dangling (margen : Int) (cs ds : List UInt8) : (widthPiece margen cs ds).1 ≠ .dangling := by
  cases ds with
  | nil => exact Piece.noConfusion
  | cons d ds =>
      rw [widthPiece]
      split_ifs <;> exact Piece.noConfusion

theorem nextPiece_ne_dangling (c : UInt8) (cs : List UInt8) : (nextPiece (c :: cs)).1 ≠ .dangling := by
  rw [nextPiece]
  split_ifs
  · simp
  · simp
  · simp
  · exact widthPiece_ne_dangling _ _ _
  · simp

/-- Only a `%` at the end dangles. -/
theorem nextPiece_eq_dangling : (nextPiece cs).1 = .dangling ↔ cs = [] := by
  cases cs with
  | nil => exact ⟨fun _ => rfl, fun _ => rfl⟩
  | cons c cs =>
      exact ⟨fun h => absurd h (nextPiece_ne_dangling c cs), fun h => absurd h (List.cons_ne_nil c cs)⟩

theorem widthOf_bounds (ds : List UInt8) {margen : Int} (h : -2 ^ 31 ≤ margen ∧ margen < 2 ^ 31) :
    -2 ^ 31 ≤ widthOf ds margen ∧ widthOf ds margen < 2 ^ 31 := by
  induction ds generalizing margen with
  | nil => exact h
  | cons d ds ih => exact ih (toInt32_bounds _)

theorem widthPiece_width {margen : Int} (h : -2 ^ 31 ≤ margen ∧ margen < 2 ^ 31) (cs ds : List UInt8) :
    -2 ^ 31 ≤ (widthPiece margen cs ds).1.width ∧ (widthPiece margen cs ds).1.width < 2 ^ 31 := by
  have hzero : -2 ^ 31 ≤ (0 : Int) ∧ (0 : Int) < 2 ^ 31 := by decide
  cases ds with
  | nil => exact hzero
  | cons d ds =>
      rw [widthPiece]
      split_ifs
      · exact h
      · exact h
      · exact h
      · exact hzero

/-- Widths are numbers of type `int`. -/
theorem nextPiece_width (cs : List UInt8) :
    -2 ^ 31 ≤ (nextPiece cs).1.width ∧ (nextPiece cs).1.width < 2 ^ 31 := by
  have hzero : -2 ^ 31 ≤ (0 : Int) ∧ (0 : Int) < 2 ^ 31 := by decide
  cases cs with
  | nil => exact hzero
  | cons c cs =>
      rw [nextPiece]
      split_ifs
      · exact hzero
      · exact hzero
      · exact hzero
      · exact widthPiece_width (widthOf_bounds _ hzero) _ _
      · exact hzero

theorem foldl_after_text (chunk : List UInt8) (p : Printer) :
    (chunk.map Piece.text).foldl Printer.after p = { p with output := p.output ++ chunk } := by
  induction chunk generalizing p with
  | nil => simp
  | cons c chunk ih =>
      rw [List.map_cons, List.foldl_cons, ih]
      simp [Printer.after, Printer.add, Piece.prints.eq_def, Piece.rest, Piece.takes, Printed.plain]

theorem filterMap_takes_text (chunk : List UInt8) (ps : List Piece) :
    (chunk.map Piece.text ++ ps).filterMap Piece.takes = ps.filterMap Piece.takes := by
  induction chunk with
  | nil => rfl
  | cons c chunk ih => exact ih

/-- The first turn of the outer loop, from an index in front of the end. -/
theorem printfLoop_succ {c : UInt8} (hregion : region.drop i = c :: rest) (hc : c ≠ 0) (fuel : Nat) :
    printfLoop region (fuel + 1) i p = (do
      let s ← copyText region fuel (i, p)
      if (← charAt region s.1) = 0 then
        return s.2
      let s ← directive region fuel (s.1 + 1) s.2
      printfLoop region fuel (s.1 + 1) s.2) := by
  simp [printfLoop, (charAt_of_drop hregion).1, hc]

/-- The text in front of the first `%`. -/
theorem exists_text_split (cs : List UInt8) : ∃ chunk after, cs = chunk ++ after ∧ 37 ∉ chunk ∧
    (after = [] ∨ ∃ cs', after = 37 :: cs') := by
  refine ⟨cs.takeWhile (· ≠ 37), cs.dropWhile (· ≠ 37), (List.takeWhile_append_dropWhile).symm,
    fun hmem => ?_, ?_⟩
  · simpa using List.mem_takeWhile_imp hmem
  · cases hdrop : cs.dropWhile (· ≠ 37) with
    | nil => exact .inl rfl
    | cons d ds =>
        have hd := List.head?_dropWhile_not (fun c : UInt8 => decide (c ≠ 37)) cs
        rw [hdrop] at hd
        exact .inr ⟨ds, by simpa using hd⟩

/-- Behind a `%` at the end the NUL is printed, and the index moves behind it. -/
theorem dangling_never (hregion : region.drop i = [0]) (p : Printer) :
    Never (fun fuel => do
      let s ← directive region fuel i p
      printfLoop region fuel (s.1 + 1) s.2) := by
  obtain ⟨hnul, hout⟩ := charAt_of_drop hregion
  have hpast : charAt region (i + 1) = .error .outOfBounds := by
    rw [charAt, List.getElem?_eq_none (List.drop_eq_nil_iff.mp hout)]
  have hdirective : ∀ fuel, directive region fuel i p = .ok (i, (p.putchar 37).putchar 0) := by
    intro fuel
    simp [directive, hnul, isDigit]
  intro fuel v h
  simp only [hdirective, ok_bind] at h
  cases fuel with
  | zero => cases h
  | succ fuel =>
      rw [printfLoop, hpast] at h
      cases h

/-- `printf` takes the pieces one after the other. Behind a dangling one it reads past the end. The
induction is on the format that is left, and a turn of the outer loop takes the text in front of a `%`
and one directive from it. -/
theorem printfLoop_returns (hregion : region.drop i = cs ++ [0]) (hcs : 0 ∉ cs)
    (hargs : Supplies p.parameters (pieces cs)) :
    (.dangling ∉ pieces cs → Returns (printfLoop region · i p) ((pieces cs).foldl Printer.after p)) ∧
      (.dangling ∈ pieces cs → Never (printfLoop region · i p)) := by
  obtain ⟨n, hn⟩ : ∃ n, cs.length = n := ⟨_, rfl⟩
  induction n using Nat.strong_induction_on generalizing cs i p with
  | _ n ih =>
      cases hhead : cs with
      | nil =>
          subst hhead
          rw [pieces_nil]
          refine ⟨fun _ => .succ rfl (fun fuel => ?_) (.const _ _), fun h => absurd h List.not_mem_nil⟩
          simp [printfLoop, (charAt_of_drop hregion).1]
      | cons c cs₀ =>
          rw [← hhead]
          have hc : c ≠ 0 := fun h0 => hcs (by rw [hhead, h0]; exact List.mem_cons_self)
          have hfirst : region.drop i = c :: (cs₀ ++ [0]) := by rw [hregion, hhead, List.cons_append]
          -- The text in front of the next directive, and what is behind it.
          obtain ⟨chunk, after, rfl, h37, hafter⟩ := exists_text_split cs
          rw [List.mem_append, not_or] at hcs
          obtain ⟨hchunk0, hafter0⟩ := hcs
          rw [pieces_text_append h37, Supplies, filterMap_takes_text] at hargs
          rw [pieces_text_append h37, List.foldl_append, foldl_after_text]
          have htext : ∀ ps : List Piece, Piece.dangling ∈ chunk.map Piece.text ++ ps ↔ .dangling ∈ ps := by
            intro ps
            simp
          rw [htext]
          rw [List.append_assoc] at hregion
          -- The format ends with the text, or a `%` follows.
          rcases hafter with rfl | ⟨cs', rfl⟩
          · have hcopy := copyText_returns (p := p) hregion hchunk0 h37 (.inl rfl)
            have hend := (charAt_of_drop (drop_add_of_drop hregion)).1
            rw [pieces_nil]
            refine ⟨fun _ => .succ rfl (printfLoop_succ hfirst hc) (hcopy.bind ?_),
              fun h => absurd h List.not_mem_nil⟩
            simp only [hend, ok_bind, if_true, pure_eq_ok]
            exact .const _ _
          · have hcopy := copyText_returns (p := p) hregion hchunk0 h37 (.inr rfl)
            obtain ⟨hpercent, hbehind⟩ := charAt_of_drop (drop_add_of_drop hregion)
            have hne : ¬ (37 : UInt8) = 0 := by decide
            rw [pieces_percent] at hargs ⊢
            change Supplies p.parameters _ at hargs
            obtain ⟨hkind, hsupplies⟩ := Supplies.cons hargs
            -- A `%` at the end leads past the terminator.
            by_cases hd : (nextPiece cs').1 = .dangling
            · refine ⟨fun hno => absurd (hd ▸ List.mem_cons_self) hno, fun _ => ?_⟩
              obtain rfl := nextPiece_eq_dangling.mp hd
              refine Never.succ rfl (printfLoop_succ hfirst hc) (.bind_right hcopy ?_)
              simp only [hpercent, ok_bind, if_neg hne]
              exact dangling_never hbehind _
            · have hpiece := Piece.run_returns (p := { p with output := p.output ++ chunk })
                (nextPiece_width cs').2 hd hkind
              obtain ⟨i', hnext, hdirective⟩ := directive_returns hbehind hd hpiece
              have hsuffix := nextPiece_suffix cs'
              -- The rest of the format is shorter, and it has no terminator inside either.
              have hlt : (nextPiece cs').2.length < n := by
                have hle := hsuffix.length_le
                rw [List.length_append, List.length_cons] at hn
                omega
              have hzero : 0 ∉ (nextPiece cs').2 :=
                fun h0 => hafter0 (List.mem_cons_of_mem 37 (hsuffix.subset h0))
              obtain ⟨hreturns, hnever⟩ := ih _ hlt
                (p := Printer.after { p with output := p.output ++ chunk } (nextPiece cs').1)
                hnext hzero hsupplies rfl
              rw [List.mem_cons, List.foldl_cons, or_iff_right (Ne.symm hd)]
              constructor
              · intro hno
                refine .succ rfl (printfLoop_succ hfirst hc) (hcopy.bind ?_)
                simp only [hpercent, ok_bind, if_neg hne]
                exact hdirective.bind (hreturns hno)
              · intro hmem
                refine Never.succ rfl (printfLoop_succ hfirst hc) (.bind_right hcopy ?_)
                simp only [hpercent, ok_bind, if_neg hne]
                exact .bind_right hdirective (hnever hmem)

/-- A call of `printf` whose format has no dangling `%`. -/
theorem printf_returns (format : CString) (hargs : Supplies args (pieces format.chars))
    (hd : .dangling ∉ pieces format.chars) :
    Returns (printf · format.region args) ((pieces format.chars).foldl Printer.after ⟨[], args, false, []⟩) :=
  (printfLoop_returns (i := 0) (p := ⟨[], args, false, []⟩) List.drop_zero format.ended hargs).1 hd

theorem printf_never (format : CString) (hargs : Supplies args (pieces format.chars))
    (hd : .dangling ∈ pieces format.chars) : Never (printf · format.region args) :=
  (printfLoop_returns (i := 0) (p := ⟨[], args, false, []⟩) List.drop_zero format.ended hargs).2 hd

end BasicKernel
