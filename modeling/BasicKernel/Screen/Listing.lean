import BasicKernel.Kernel.Numerals
import BasicKernel.Screen.Cursor
import BasicKernel.Screen.SystemCalls
import BasicKernel.View.Script

set_option autoImplicit false

/-! # Numbers and the listing of the processes

`printDec` goes through its first loop for ever when the number has more than one digit. `printAllProcess`
and `printPsHeader` walk the ring of processes as often as their loop counters, which nobody sets, leave.

What the listing prints is seen on a list that takes the place of the screen: there nothing scrolls away, and
the digits of a number stay apart from the text around them.

`printDec_prints_iff` and `listing_complete_iff` say exactly when a number and a listing are
printed. In `listing_incomplete` the counters hold something else, and a process is missing.
-/

namespace BasicKernel

open Linked Decimal Video

variable {v v' : Video} {number : Int} {fuel : Nat}

/-! ## Numbers

The first loop multiplies the divisor and tests the length, which it does not change. With one digit
it is not entered. -/

/-- Every round counts a digit. -/
theorem countDigits_ge : ∀ {fuel : Nat} {number length r : Int},
    countDigits fuel number length = .ok r → length ≤ r ∧ (number ≠ 0 → length + 1 ≤ r) := by
  intro fuel
  induction fuel with
  | zero => intro _ _ _ h; cases h
  | succ fuel ih =>
      intro number length r h
      rw [countDigits] at h
      by_cases hzero : number = 0
      · rw [if_pos hzero] at h
        obtain rfl := Except.ok.inj h
        exact ⟨le_rfl, fun hne => absurd hzero hne⟩
      · rw [if_neg hzero] at h
        have hle := (ih h).1
        exact ⟨by omega, fun _ => hle⟩

theorem intLength_ge_two (hdigits : number.tdiv 10 ≠ 0) {length : Int}
    (h : intLength fuel number = .ok length) : 2 ≤ length := by
  have hzero : number ≠ 0 := by
    rintro rfl
    exact hdigits rfl
  cases fuel with
  | zero => cases h
  | succ fuel =>
      rw [intLength, countDigits, if_neg hzero] at h
      exact (countDigits_ge h).2 hdigits

/-- A number of two or more digits keeps `printDec` in its first loop. -/
theorem printDec_never {σ : Type} [PrintsOn σ] (h : number < -9 ∨ 9 < number) (v v' : σ) (fuel : Nat) :
    printDec fuel v number ≠ .ok v' := by
  intro hrun
  have hdigits : number.tdiv 10 ≠ 0 := by
    intro hzero
    have hdiv := Int.mul_tdiv_add_tmod number 10
    have hlt := Int.tmod_lt_of_pos number (b := 10) (by decide)
    have hgt := Int.neg_tmod number 10 ▸ Int.tmod_lt_of_pos (-number) (b := 10) (by decide)
    omega
  obtain ⟨length, hlength, hrun⟩ := bind_eq_ok.mp hrun
  obtain ⟨divisor, hloop, -⟩ := bind_eq_ok.mp hrun
  have hlong : length - 1 > 0 := by
    have := intLength_ge_two hdigits hlength
    omega
  have hforever : walkWhile Stop.outOfFuel (fun _ => .ok (decide (length - 1 > 0)))
      (fun divisor => .ok (toInt32 (divisor * 10))) fuel (1 : Int) = .error .outOfFuel :=
    walkWhile_forever (S := fun _ => True) (fun x _ => ⟨by rw [decide_eq_true hlong], _, trivial, rfl⟩)
      trivial fuel
  rw [hforever] at hloop
  cases hloop

/-- `printDec` ends with the digits of the number on the screen if and only if there is one digit. -/
theorem printDec_prints_iff (v : Video) (h0 : 0 ≤ number) :
    Fuel.Returns Stop.outOfFuel (printDec · v number)
      ((numeralChars number.toNat).foldl printCharacters v) ↔ number < 10 := by
  constructor
  · intro h
    obtain ⟨fuel, hrun⟩ := h.exists_fuel
    by_contra hlarge
    exact printDec_never (.inr (by omega)) _ _ _ hrun
  · intro hsmall
    have hnumeral : numeralChars number.toNat = [digit number] := by
      rw [numeralChars, numeral_of_lt (by omega), List.map_singleton, Int.toNat_of_nonneg h0]
    rw [hnumeral]
    exact printDec_digit v (by omega) (by omega)

theorem printDec_endless : ¬ ∀ (v : Video) (number : Int), 0 ≤ number → number < 2 ^ 31 →
    Fuel.Returns Stop.outOfFuel (printDec · v number)
      ((numeralChars number.toNat).foldl printCharacters v) := by
  intro hclaim
  obtain ⟨fuel, hrun⟩ := (hclaim (Display.blankAt 0).video 10 (by decide) (by decide)).exists_fuel
  exact printDec_never (.inr (by decide)) _ _ _ hrun

/-- One digit is printed, and two are not. -/
theorem printDec_prints_seven_not_ten :
    Fuel.Returns Stop.outOfFuel (printDec · (Display.blankAt 0).video 7)
      ((numeralChars (7 : Int).toNat).foldl printCharacters (Display.blankAt 0).video) ∧
    ¬ Fuel.Returns Stop.outOfFuel (printDec · (Display.blankAt 0).video 10)
      ((numeralChars (10 : Int).toNat).foldl printCharacters (Display.blankAt 0).video) :=
  ⟨(printDec_prints_iff _ (by decide)).mpr (by decide),
    fun hprints => absurd ((printDec_prints_iff _ (by decide)).mp hprints) (by decide)⟩

/-! ## What is printed

A text that goes to a list is compared with the text that should be there, without the rows and
colours of a screen. -/

inductive Glyph where
  | text (string : List UInt8)
  | character (c : UInt8)
  | tab
  | newLine
  deriving DecidableEq

/-- To print on a list is to append. -/
instance : PrintsOn (List Glyph) where
  print t string := t ++ [.text string]
  printCharacters t c := t ++ [.character c]
  printTab t := t ++ [.tab]
  newLine t := t ++ [.newLine]

section On

variable {σ : Type} [PrintsOn σ] {v v' : σ} {num : Int → List UInt8} {k : Kernel}

/-- The same, printed on something else. -/
def Glyph.on (v : σ) : Glyph → σ
  | text string => PrintsOn.print v string
  | character c => PrintsOn.printCharacters v c
  | tab => PrintsOn.printTab v
  | newLine => PrintsOn.newLine v

theorem Glyph.foldl_on (t xs : List Glyph) : xs.foldl on t = t ++ xs := by
  induction xs generalizing t with
  | nil => exact (List.append_nil t).symm
  | cons x xs ih =>
      have hx : on t x = t ++ [x] := by cases x <;> rfl
      rw [List.foldl_cons, ih, hx, List.append_assoc, List.singleton_append]

/-- The characters of a number in decimal. -/
def decimalChars (number : Int) : List UInt8 :=
  if number < 0 then 45 :: numeralChars (-number).toNat else numeralChars number.toNat -- '-'

/-- The character that `printDec` prints when it ends. -/
def digitOf (number : Int) : List UInt8 := [digit number]

/-- A number with the characters `num`. -/
def numberText (num : Int → List UInt8) (number : Int) : List Glyph :=
  (num number).map Glyph.character

/-- The header, for numbers with the characters `num`. -/
def headerText (num : Int → List UInt8) (count : PsCount) : List Glyph :=
  List.flatten [
    [.newLine, .text (chars "Processses: ")], numberText num count.process, [.text (chars " total, ")],
    numberText num count.running, [.text (chars " running, ")],
    numberText num count.ready, [.text (chars " ready, ")],
    numberText num count.blocked, [.text (chars " blocked"), .newLine],
    [.text (chars "Threads: ")], numberText num count.threads, [.text (chars " total"), .newLine, .newLine],
    [.text (chars "PID"), .tab, .text (chars "Command"), .tab, .text (chars "#Threads"), .tab,
      .text (chars "PPID"), .tab, .text (chars "State"), .newLine]]

/-- The line of a process with this name. -/
def infoText (num : Int → List UInt8) (p : ProcessNode) (name : List UInt8) : List Glyph :=
  List.flatten [
    numberText num p.pid, [.tab, .text name, .tab], numberText num p.threadSize, [.tab],
    numberText num p.ppid, [.tab, .text (getStatus p.state), .newLine]]

def PsCount.numbers (count : PsCount) : List Int :=
  [count.process, count.running, count.ready, count.blocked, count.threads]

def ProcessNode.numbers (p : ProcessNode) : List Int := [p.pid, p.threadSize, p.ppid]

/-! ### Runs of `printDec`

Where the functions that print numbers end, each of the numbers has one digit, and that digit was
printed. -/

theorem printDec_inv (h : printDec fuel v number = .ok v') :
    (-9 ≤ number ∧ number ≤ 9) ∧ v' = PrintsOn.printCharacters v (digit number) := by
  have hnever := mt (fun h => printDec_never h v v' fuel) (not_not.mpr h)
  have hbounds : -9 ≤ number ∧ number ≤ 9 := by omega
  exact ⟨hbounds, (printDec_digit v hbounds.1 hbounds.2).eq h⟩

theorem printPsHeader_inv {i : Int} (h : printPsHeader fuel k v i = .ok v') :
    ∃ count, countProcesses k (k.queueSize - i).toNat k.processQueue ⟨0, 0, 0, 0, 0⟩ = .ok count ∧
      (∀ n ∈ count.numbers, -9 ≤ n ∧ n ≤ 9) ∧ v' = (headerText digitOf count).foldl Glyph.on v := by
  obtain ⟨count, hcount, h⟩ := bind_eq_ok.mp h
  obtain ⟨v₁, hprocess, h⟩ := bind_eq_ok.mp h
  obtain ⟨v₂, hrunning, h⟩ := bind_eq_ok.mp h
  obtain ⟨v₃, hready, h⟩ := bind_eq_ok.mp h
  obtain ⟨v₄, hblocked, h⟩ := bind_eq_ok.mp h
  obtain ⟨v₅, hthreads, h⟩ := bind_eq_ok.mp h
  obtain rfl := Except.ok.inj h
  obtain ⟨h₁, rfl⟩ := printDec_inv hprocess
  obtain ⟨h₂, rfl⟩ := printDec_inv hrunning
  obtain ⟨h₃, rfl⟩ := printDec_inv hready
  obtain ⟨h₄, rfl⟩ := printDec_inv hblocked
  obtain ⟨h₅, rfl⟩ := printDec_inv hthreads
  refine ⟨count, hcount, ?_, rfl⟩
  simp only [PsCount.numbers, List.forall_mem_cons, List.not_mem_nil, false_imp_iff, implies_true, and_true]
  exact ⟨h₁, h₂, h₃, h₄, h₅⟩

theorem printProcessInfo_inv {process : Addr} (h : printProcessInfo fuel k v process = .ok v') :
    ∃ p name, load k.process process = .ok p ∧ readString fuel k p.name = .ok name ∧
      (∀ n ∈ p.numbers, -9 ≤ n ∧ n ≤ 9) ∧ v' = (infoText digitOf p name).foldl Glyph.on v := by
  obtain ⟨p, hp, h⟩ := bind_eq_ok.mp h
  obtain ⟨v₁, hpid, h⟩ := bind_eq_ok.mp h
  obtain ⟨name, hname, h⟩ := bind_eq_ok.mp h
  obtain ⟨v₂, hthreads, h⟩ := bind_eq_ok.mp h
  obtain ⟨v₃, hppid, h⟩ := bind_eq_ok.mp h
  obtain rfl := Except.ok.inj h
  obtain ⟨h₁, rfl⟩ := printDec_inv hpid
  obtain ⟨h₂, rfl⟩ := printDec_inv hthreads
  obtain ⟨h₃, rfl⟩ := printDec_inv hppid
  refine ⟨p, name, hp, hname, ?_, rfl⟩
  simp only [ProcessNode.numbers, List.forall_mem_cons, List.not_mem_nil, false_imp_iff, implies_true,
    and_true]
  exact ⟨h₁, h₂, h₃⟩

theorem printPsHeader_returns {i : Int} {count : PsCount}
    (hcount : countProcesses k (k.queueSize - i).toNat k.processQueue ⟨0, 0, 0, 0, 0⟩ = .ok count)
    (hshort : ∀ n ∈ count.numbers, -9 ≤ n ∧ n ≤ 9) (v : σ) :
    Fuel.Returns Stop.outOfFuel (printPsHeader · k v i) ((headerText digitOf count).foldl Glyph.on v) := by
  simp only [PsCount.numbers, List.forall_mem_cons, List.not_mem_nil, false_imp_iff, implies_true,
    and_true] at hshort
  obtain ⟨h₁, h₂, h₃, h₄, h₅⟩ := hshort
  simp only [printPsHeader, hcount, ok_bind]
  refine (printDec_digit _ h₁.1 h₁.2).bind ?_
  refine (printDec_digit _ h₂.1 h₂.2).bind ?_
  refine (printDec_digit _ h₃.1 h₃.2).bind ?_
  refine (printDec_digit _ h₄.1 h₄.2).bind ?_
  exact (printDec_digit _ h₅.1 h₅.2).bind (.const _ _)

theorem printProcessInfo_returns {process : Addr} {p : ProcessNode} {name : List UInt8}
    (hp : load k.process process = .ok p)
    (hname : Fuel.Returns Stop.outOfFuel (readString · k p.name) name)
    (hshort : ∀ n ∈ p.numbers, -9 ≤ n ∧ n ≤ 9) (v : σ) :
    Fuel.Returns Stop.outOfFuel (printProcessInfo · k v process)
      ((infoText digitOf p name).foldl Glyph.on v) := by
  simp only [ProcessNode.numbers, List.forall_mem_cons, List.not_mem_nil, false_imp_iff, implies_true,
    and_true] at hshort
  obtain ⟨h₁, h₂, h₃⟩ := hshort
  simp only [printProcessInfo, hp, ok_bind]
  refine (printDec_digit _ h₁.1 h₁.2).bind (hname.bind ?_)
  refine (printDec_digit _ h₂.1 h₂.2).bind ?_
  exact (printDec_digit _ h₃.1 h₃.2).bind (.const _ _)

/-! ### What two texts have in common

The listing that is printed and the one that should be are texts of the same form. From their
equality the numbers are read off. -/

@[simp] theorem count_newLine_numberText (number : Int) : (numberText num number).count .newLine = 0 := by
  rw [numberText, List.count_eq_zero]
  simp

theorem count_newLine_headerText (count : PsCount) : (headerText num count).count .newLine = 5 := by
  simp [headerText]

theorem count_newLine_infoText (p : ProcessNode) (name : List UInt8) :
    (infoText num p name).count .newLine = 1 := by
  simp [infoText]

/-- A number ends where something else is printed. -/
theorem numberText_append_inj {num' : Int → List UInt8} {n n' : Int} {x x' : Glyph} {R R' : List Glyph}
    (hx : ∀ c, x ≠ .character c) (hx' : ∀ c, x' ≠ .character c)
    (h : numberText num n ++ x :: R = numberText num' n' ++ x' :: R') : num n = num' n' ∧ R = R' := by
  unfold numberText at h
  generalize num n = A at h
  generalize num' n' = A' at h
  induction A generalizing A' with
  | nil =>
      cases A' with
      | nil => exact ⟨rfl, (List.cons.inj h).2⟩
      | cons c A' => exact absurd (List.cons.inj h).1 (hx c)
  | cons c A ih =>
      cases A' with
      | nil => exact absurd (List.cons.inj h).1.symm (hx' c)
      | cons c' A' =>
          obtain ⟨hc, h⟩ := List.cons.inj h
          obtain ⟨hA, hR⟩ := ih A' h
          exact ⟨by rw [Glyph.character.inj hc, hA], hR⟩

theorem length_numeralChars {n : Nat} (hn : 0 < n) :
    (numeralChars n).length = (digits (n / 10)).length + 1 := by
  rw [numeralChars, List.length_map, numeral, if_neg hn.ne', length_digits_pos hn]

theorem lt_ten_of_length_numeralChars {n : Nat} (h : (numeralChars n).length = 1) : n < 10 := by
  by_contra hn
  rw [length_numeralChars (by omega), length_digits_pos (by omega)] at h
  omega

theorem digit_inj {n n' : Int} (hn : -9 ≤ n ∧ n ≤ 9) (hn' : -9 ≤ n' ∧ n' ≤ 9) (h : digit n = digit n') :
    n = n' := by
  have hall : ∀ a ∈ Finset.Icc (-9 : Int) 9, ∀ b ∈ Finset.Icc (-9 : Int) 9, digit a = digit b → a = b := by
    decide
  exact hall n (Finset.mem_Icc.mpr hn) n' (Finset.mem_Icc.mpr hn') h

/-- One digit says a number in decimal if and only if it is that digit. -/
theorem digitOf_eq_decimalChars_iff {n n' : Int} (hn : -9 ≤ n ∧ n ≤ 9) :
    digitOf n = decimalChars n' ↔ n = n' ∧ 0 ≤ n' := by
  have hone : ∀ {m : Nat}, m < 10 → numeralChars m = [digit m] := by
    intro m hm
    rw [numeralChars, numeral_of_lt hm, List.map_singleton]
  constructor
  · intro h
    have hlength : (decimalChars n').length = 1 := h ▸ rfl
    rw [decimalChars] at h hlength
    split at hlength
    next hneg =>
      -- a sign and a digit are too much
      exact absurd (Nat.succ.inj hlength) (length_numeralChars_pos _).ne'
    next hpos =>
      rw [if_neg hpos] at h
      have hlt : n'.toNat < 10 := lt_ten_of_length_numeralChars hlength
      rw [hone hlt, Int.toNat_of_nonneg (not_lt.mp hpos)] at h
      exact ⟨digit_inj hn (by omega) (List.singleton_inj.mp h), not_lt.mp hpos⟩
  · rintro ⟨rfl, hpos⟩
    rw [decimalChars, if_neg (not_lt.mpr hpos), hone (by omega), Int.toNat_of_nonneg hpos]
    rfl

/-! ### Texts that are equal

Header and lines are compared piece by piece. A number is followed by something that is no
digit. -/

theorem headerText_append_inj {count count' : PsCount} {R R' : List Glyph}
    (hshort : ∀ n ∈ count.numbers, -9 ≤ n ∧ n ≤ 9)
    (h : headerText digitOf count ++ R = headerText decimalChars count' ++ R') :
    count = count' ∧ (∀ n ∈ count'.numbers, 0 ≤ n ∧ n ≤ 9) ∧ R = R' := by
  -- Both headers have the same text around their numbers, which is taken off piece by piece.
  simp only [headerText, List.flatten_cons, List.flatten_nil, List.append_assoc, List.cons_append,
    List.nil_append, List.cons.injEq, true_and] at h
  obtain ⟨h₁, h⟩ := numberText_append_inj (by simp) (by simp) h
  obtain ⟨h₂, h⟩ := numberText_append_inj (by simp) (by simp) h
  obtain ⟨h₃, h⟩ := numberText_append_inj (by simp) (by simp) h
  obtain ⟨h₄, h⟩ := numberText_append_inj (by simp) (by simp) h
  simp only [List.cons.injEq, true_and] at h
  obtain ⟨h₅, h⟩ := numberText_append_inj (by simp) (by simp) h
  simp only [List.cons.injEq, true_and] at h
  -- The numbers of the first header have at most one digit.
  simp only [PsCount.numbers, List.forall_mem_cons, List.not_mem_nil, false_imp_iff, implies_true,
    and_true] at hshort ⊢
  obtain ⟨hb₁, hb₂, hb₃, hb₄, hb₅⟩ := hshort
  -- Each of them is then equal to that of the second and not negative.
  obtain ⟨e₁, p₁⟩ := (digitOf_eq_decimalChars_iff hb₁).mp h₁
  obtain ⟨e₂, p₂⟩ := (digitOf_eq_decimalChars_iff hb₂).mp h₂
  obtain ⟨e₃, p₃⟩ := (digitOf_eq_decimalChars_iff hb₃).mp h₃
  obtain ⟨e₄, p₄⟩ := (digitOf_eq_decimalChars_iff hb₄).mp h₄
  obtain ⟨e₅, p₅⟩ := (digitOf_eq_decimalChars_iff hb₅).mp h₅
  rw [e₁] at hb₁
  rw [e₂] at hb₂
  rw [e₃] at hb₃
  rw [e₄] at hb₄
  rw [e₅] at hb₅
  refine ⟨?_, ⟨⟨p₁, hb₁.2⟩, ⟨p₂, hb₂.2⟩, ⟨p₃, hb₃.2⟩, ⟨p₄, hb₄.2⟩, p₅, hb₅.2⟩, h⟩
  -- Five equal fields make the same record.
  cases count
  cases count'
  simp_all

theorem infoText_append_inj {p : ProcessNode} {name : List UInt8} {R R' : List Glyph}
    (hshort : ∀ n ∈ p.numbers, -9 ≤ n ∧ n ≤ 9)
    (h : infoText digitOf p name ++ R = infoText decimalChars p name ++ R') :
    (∀ n ∈ p.numbers, 0 ≤ n ∧ n ≤ 9) ∧ R = R' := by
  simp only [infoText, List.flatten_cons, List.flatten_nil, List.append_assoc, List.cons_append,
    List.nil_append] at h
  obtain ⟨h₁, h⟩ := numberText_append_inj (by simp) (by simp) h
  simp only [List.cons.injEq, true_and] at h
  obtain ⟨h₂, h⟩ := numberText_append_inj (by simp) (by simp) h
  obtain ⟨h₃, h⟩ := numberText_append_inj (by simp) (by simp) h
  simp only [List.cons.injEq, true_and] at h
  simp only [ProcessNode.numbers, List.forall_mem_cons, List.not_mem_nil, false_imp_iff, implies_true,
    and_true] at hshort ⊢
  obtain ⟨hb₁, hb₂, hb₃⟩ := hshort
  have p₁ := ((digitOf_eq_decimalChars_iff hb₁).mp h₁).2
  have p₂ := ((digitOf_eq_decimalChars_iff hb₂).mp h₂).2
  have p₃ := ((digitOf_eq_decimalChars_iff hb₃).mp h₃).2
  exact ⟨⟨⟨p₁, hb₁.2⟩, ⟨p₂, hb₂.2⟩, p₃, hb₃.2⟩, h⟩

theorem numberText_of_short {n : Int} (h : 0 ≤ n ∧ n ≤ 9) :
    numberText digitOf n = numberText decimalChars n := by
  have heq : digitOf n = decimalChars n :=
    (digitOf_eq_decimalChars_iff ⟨by omega, h.2⟩).mpr ⟨rfl, h.1⟩
  rw [numberText, heq, numberText]

/-- Where the digits are the decimal numbers, the texts are the same. -/
theorem headerText_of_short {count : PsCount} (hshort : ∀ n ∈ count.numbers, 0 ≤ n ∧ n ≤ 9) :
    headerText digitOf count = headerText decimalChars count := by
  have hnumber : ∀ n ∈ count.numbers, numberText digitOf n = numberText decimalChars n :=
    fun n hn => numberText_of_short (hshort n hn)
  simp only [PsCount.numbers, List.forall_mem_cons, List.not_mem_nil, false_imp_iff, implies_true,
    and_true] at hnumber
  obtain ⟨h₁, h₂, h₃, h₄, h₅⟩ := hnumber
  rw [headerText, headerText, h₁, h₂, h₃, h₄, h₅]

theorem infoText_of_short {p : ProcessNode} (hshort : ∀ n ∈ p.numbers, 0 ≤ n ∧ n ≤ 9) (name : List UInt8) :
    infoText digitOf p name = infoText decimalChars p name := by
  have hnumber : ∀ n ∈ p.numbers, numberText digitOf n = numberText decimalChars n :=
    fun n hn => numberText_of_short (hshort n hn)
  simp only [ProcessNode.numbers, List.forall_mem_cons, List.not_mem_nil, false_imp_iff, implies_true,
    and_true] at hnumber
  obtain ⟨h₁, h₂, h₃⟩ := hnumber
  rw [infoText, infoText, h₁, h₂, h₃]

end On

/-! ## A complete listing -/

/-- The process that a node of the ring stands for. -/
def Kernel.processOf (k : Kernel) (n : Addr) : ProcessNode := k.process (k.schedulerNode n).process

/-- A ring of `queueSize` nodes, none of them of a dead process. `name n` are the characters of the name
of the process at `n`. -/
structure Kernel.PsRing (k : Kernel) (nodes : List Addr) (name : Addr → List UInt8) : Prop where
  ring : Ring k.nextNode k.processQueue nodes
  size : k.queueSize = nodes.length
  nodes_ne : ∀ n ∈ nodes, n ≠ NULL
  processes_ne : ∀ n ∈ nodes, (k.schedulerNode n).process ≠ NULL
  names : ∀ n ∈ nodes, Fuel.Returns Stop.outOfFuel (readString · k (k.processOf n).name) (name n)
  alive : ∀ n ∈ nodes, (k.processOf n).state ≠ .DEAD

/-- The totals of a header. -/
def Kernel.totals (k : Kernel) (nodes : List Addr) : PsCount where
  process := nodes.length
  blocked := nodes.countP fun n => isProcessBlocked (k.processOf n).state
  running := nodes.countP fun n => (k.processOf n).state = .RUNNING
  ready := nodes.countP fun n => (k.processOf n).state = .READY
  threads := (nodes.map fun n => (k.processOf n).threadSize).sum

/-- The listing: the header with its totals, and the line of each process once. -/
def Kernel.listing (k : Kernel) (nodes : List Addr) (name : Addr → List UInt8) : List Glyph :=
  headerText decimalChars (k.totals nodes) ++
    (nodes.flatMap fun n => infoText decimalChars (k.processOf n) (name n)) ++
    [.newLine, .newLine, .newLine]

/-- `printAllProcess` ends, and has printed the listing: on a list, and on the screen. -/
structure Kernel.PrintsListing (k : Kernel) (v : Video) (nodes : List Addr) (name : Addr → List UInt8)
    (i headerI : Int) : Prop where
  text : Fuel.Returns Stop.outOfFuel (printAllProcess · k ([] : List Glyph) i headerI)
    (k.listing nodes name)
  screen : Fuel.Returns Stop.outOfFuel (printAllProcess · k v i headerI)
    ((k.listing nodes name).foldl Glyph.on v)

/-- No number of the listing is negative or has more than one digit. -/
def Kernel.ShortNumbers (k : Kernel) (nodes : List Addr) : Prop :=
  (∀ n ∈ (k.totals nodes).numbers, 0 ≤ n ∧ n ≤ 9) ∧
    ∀ node ∈ nodes, ∀ n ∈ (k.processOf node).numbers, 0 ≤ n ∧ n ≤ 9

/-! ### Walking the ring

Both loops go from node to node, as often as their counters are below `queueSize`. -/

section Ring

variable {σ : Type} [PrintsOn σ] {v v' : σ} {k : Kernel} {nodes : List Addr} {name : Addr → List UInt8}

theorem countProcesses_process : ∀ {n : Nat} {current : Addr} {count count' : PsCount},
    countProcesses k n current count = .ok count' → count'.process = count.process + n := by
  intro n
  induction n with
  | zero =>
      intro current count count' h
      obtain rfl := Except.ok.inj h
      simp
  | succ n ih =>
      intro current count count' h
      obtain ⟨node, -, h⟩ := bind_eq_ok.mp h
      obtain ⟨p, -, h⟩ := bind_eq_ok.mp h
      rw [ih h]
      dsimp only
      split_ifs
      all_goals
        dsimp only
        push_cast
        omega

theorem countProcesses_path : ∀ {nodes : List Addr} {a b : Addr} (count : PsCount),
    Path k.nextNode a nodes b → (∀ n ∈ nodes, n ≠ NULL ∧ (k.schedulerNode n).process ≠ NULL) →
    countProcesses k nodes.length a count = .ok
      ⟨count.process + (k.totals nodes).process, count.blocked + (k.totals nodes).blocked,
        count.running + (k.totals nodes).running, count.ready + (k.totals nodes).ready,
        count.threads + (k.totals nodes).threads⟩ := by
  -- By induction on the path, with what was counted before.
  intro nodes
  induction nodes with
  | nil =>
      intro a b count _ _
      simp [countProcesses, Kernel.totals]
  | cons n nodes ih =>
      intro a b count hpath hne
      obtain ⟨rfl, hpath⟩ := hpath
      obtain ⟨hnode, hprocess⟩ := hne a List.mem_cons_self
      rw [List.length_cons, countProcesses, load_of_ne hnode, ok_bind, load_of_ne hprocess, ok_bind]
      have hrest := fun count => ih count hpath fun m hm => hne m (List.mem_cons_of_mem _ hm)
      rw [Kernel.nextNode] at hrest
      rw [hrest]
      simp only [Kernel.totals, List.countP_cons, List.length_cons, List.map_cons, List.sum_cons,
        Kernel.processOf]
      -- The state of the process decides which counter goes up.
      obtain ⟨state, hstate⟩ : ∃ state, (k.process (k.schedulerNode a).process).state = state := ⟨_, rfl⟩
      cases state
      all_goals
        simp [hstate, isProcessBlocked]
        omega


/-- Every round prints one line. -/
theorem printProcesses_inv : ∀ {n : Nat} {queue : Addr} {v v' : σ},
    printProcesses fuel k n queue v = .ok v' →
    ∃ lines : List Glyph, v' = lines.foldl Glyph.on v ∧ lines.count .newLine = n := by
  intro n
  induction n with
  | zero =>
      intro queue v v' h
      obtain rfl := Except.ok.inj h
      exact ⟨[], rfl, rfl⟩
  | succ n ih =>
      intro queue v v' h
      obtain ⟨node, -, h⟩ := bind_eq_ok.mp h
      obtain ⟨v₁, hinfo, h⟩ := bind_eq_ok.mp h
      obtain ⟨p, name, -, -, -, rfl⟩ := printProcessInfo_inv hinfo
      obtain ⟨lines, rfl, hcount⟩ := ih h
      refine ⟨infoText digitOf p name ++ lines, (List.foldl_append ..).symm, ?_⟩
      rw [List.count_append, count_newLine_infoText, hcount, Nat.add_comm]

theorem printProcesses_path_inv : ∀ {nodes : List Addr} {a b : Addr} {v v' : σ},
    Path k.nextNode a nodes b →
    (∀ n ∈ nodes, Fuel.Returns Stop.outOfFuel (readString · k (k.processOf n).name) (name n)) →
    printProcesses fuel k nodes.length a v = .ok v' →
    (∀ node ∈ nodes, ∀ n ∈ (k.processOf node).numbers, -9 ≤ n ∧ n ≤ 9) ∧
      v' = (nodes.flatMap fun n => infoText digitOf (k.processOf n) (name n)).foldl Glyph.on v := by
  intro nodes
  induction nodes with
  | nil =>
      intro a b v v' _ _ h
      obtain rfl := Except.ok.inj h
      exact ⟨fun _ hn => absurd hn List.not_mem_nil, rfl⟩
  | cons n nodes ih =>
      intro a b v v' hpath hnames h
      obtain ⟨rfl, hpath⟩ := hpath
      obtain ⟨node, hnode, h⟩ := bind_eq_ok.mp h
      obtain ⟨v₁, hinfo, h⟩ := bind_eq_ok.mp h
      obtain rfl := (load_eq_ok.mp hnode).2
      obtain ⟨p, text, hp, htext, hnumbers, rfl⟩ := printProcessInfo_inv hinfo
      obtain rfl := (load_eq_ok.mp hp).2
      obtain rfl := (hnames a List.mem_cons_self).eq htext
      obtain ⟨hrest, rfl⟩ := ih hpath (fun m hm => hnames m (List.mem_cons_of_mem _ hm)) h
      exact ⟨List.forall_mem_cons.mpr ⟨hnumbers, hrest⟩, (List.foldl_append ..).symm⟩

theorem printProcesses_path_returns : ∀ {nodes : List Addr} {a b : Addr} (v : σ),
    Path k.nextNode a nodes b →
    (∀ n ∈ nodes, n ≠ NULL ∧ (k.schedulerNode n).process ≠ NULL ∧
      Fuel.Returns Stop.outOfFuel (readString · k (k.processOf n).name) (name n)) →
    (∀ node ∈ nodes, ∀ n ∈ (k.processOf node).numbers, 0 ≤ n ∧ n ≤ 9) →
    Fuel.Returns Stop.outOfFuel (printProcesses · k nodes.length a v)
      ((nodes.flatMap fun n => infoText decimalChars (k.processOf n) (name n)).foldl Glyph.on v) := by
  -- By induction on the path; each node prints one line and leads to the next.
  intro nodes
  induction nodes with
  | nil => exact fun v _ _ _ => .const _ _
  | cons n nodes ih =>
      intro a b v hpath hgood hshort
      obtain ⟨rfl, hpath⟩ := hpath
      obtain ⟨hnode, hprocess, hname⟩ := hgood a List.mem_cons_self
      -- The numbers of this process have one digit, which is what `printDec` prints.
      obtain ⟨hself, hrest⟩ := List.forall_mem_cons.mp hshort
      have hbounds : ∀ m ∈ (k.processOf a).numbers, -9 ≤ m ∧ m ≤ 9 :=
        fun m hm => ⟨by have := (hself m hm).1; omega, (hself m hm).2⟩
      have hinfo : Fuel.Returns Stop.outOfFuel (printProcessInfo · k v (k.schedulerNode a).process)
          ((infoText digitOf (k.processOf a) (name a)).foldl Glyph.on v) :=
        printProcessInfo_returns (load_of_ne hprocess) hname hbounds v
      rw [infoText_of_short hself] at hinfo
      simp only [List.length_cons, printProcesses, load_of_ne hnode, ok_bind, List.flatMap_cons,
        List.foldl_append]
      exact hinfo.bind (ih _ hpath (fun m hm => hgood m (List.mem_cons_of_mem _ hm)) hrest)

theorem infoTexts_inj {tail : List Glyph} :
    (∀ node ∈ nodes, ∀ n ∈ (k.processOf node).numbers, -9 ≤ n ∧ n ≤ 9) →
    (nodes.flatMap fun n => infoText digitOf (k.processOf n) (name n)) ++ tail =
      (nodes.flatMap fun n => infoText decimalChars (k.processOf n) (name n)) ++ tail →
    ∀ node ∈ nodes, ∀ n ∈ (k.processOf node).numbers, 0 ≤ n ∧ n ≤ 9 := by
  induction nodes with
  | nil => exact fun _ _ _ hn => absurd hn List.not_mem_nil
  | cons n nodes ih =>
      intro hshort h
      obtain ⟨hself, hrest⟩ := List.forall_mem_cons.mp hshort
      simp only [List.flatMap_cons, List.append_assoc] at h
      obtain ⟨hnumbers, h⟩ := infoText_append_inj hself h
      exact List.forall_mem_cons.mpr ⟨hnumbers, ih hrest h⟩

end Ring

/-! ### The listing of a well formed ring

With a counter that starts at 0 a loop goes once around. With any other start it misses processes
or goes on. -/

namespace Kernel.PsRing

variable {σ : Type} [PrintsOn σ] {k : Kernel} {nodes : List Addr} {name : Addr → List UInt8} {i headerI : Int}

theorem queue_ne (h : k.PsRing nodes name) : k.processQueue ≠ NULL :=
  h.nodes_ne _ h.ring.head_mem

theorem countProcesses_eq (h : k.PsRing nodes name) :
    countProcesses k (k.queueSize - 0).toNat k.processQueue ⟨0, 0, 0, 0, 0⟩ = .ok (k.totals nodes) := by
  have hcount := countProcesses_path ⟨0, 0, 0, 0, 0⟩ h.ring.path
    fun n hn => ⟨h.nodes_ne n hn, h.processes_ne n hn⟩
  simp only [zero_add] at hcount
  rwa [h.size, sub_zero, Int.toNat_natCast]

/-- With both counters at 0 and short numbers the listing is printed, whatever it is printed on. -/
theorem printAllProcess_returns (h : k.PsRing nodes name) (hshort : k.ShortNumbers nodes) (v : σ) :
    Fuel.Returns Stop.outOfFuel (printAllProcess · k v 0 0) ((k.listing nodes name).foldl Glyph.on v) := by
  obtain ⟨htotals, hnumbers⟩ := hshort
  have hheader := printPsHeader_returns h.countProcesses_eq
    (fun n hn => ⟨by have := (htotals n hn).1; omega, (htotals n hn).2⟩) v
  rw [headerText_of_short htotals] at hheader
  have hrounds : (k.queueSize - 0).toNat = nodes.length := by
    rw [h.size, sub_zero, Int.toNat_natCast]
  simp only [printAllProcess, if_neg h.queue_ne, hrounds, Kernel.listing, List.foldl_append]
  exact hheader.bind ((printProcesses_path_returns _ h.ring.path
    (fun n hn => ⟨h.nodes_ne n hn, h.processes_ne n hn, h.names n hn⟩) hnumbers).bind (.const _ _))

/-- What is printed, on a list, when `printAllProcess` ends. -/
theorem printAllProcess_inv (h : k.PsRing nodes name) {t : List Glyph}
    (hrun : printAllProcess fuel k ([] : List Glyph) i headerI = .ok t) :
    ∃ count t', countProcesses k (k.queueSize - headerI).toNat k.processQueue ⟨0, 0, 0, 0, 0⟩ = .ok count ∧
      (∀ n ∈ count.numbers, -9 ≤ n ∧ n ≤ 9) ∧
      printProcesses fuel k (k.queueSize - i).toNat k.processQueue (headerText digitOf count) = .ok t' ∧
      t = t' ++ [.newLine, .newLine, .newLine] := by
  rw [printAllProcess, if_neg h.queue_ne] at hrun
  obtain ⟨t₁, hheader, hrun⟩ := bind_eq_ok.mp hrun
  obtain ⟨t', hlines, hrun⟩ := bind_eq_ok.mp hrun
  obtain ⟨count, hcount, hbounds, ht₁⟩ := printPsHeader_inv hheader
  rw [Glyph.foldl_on, List.nil_append] at ht₁
  rw [ht₁] at hlines
  refine ⟨count, t', hcount, hbounds, hlines, ?_⟩
  calc t = ((t' ++ [.newLine]) ++ [.newLine]) ++ [.newLine] := (Except.ok.inj hrun).symm
    _ = t' ++ [.newLine, .newLine, .newLine] := by simp only [List.append_assoc, List.cons_append, List.nil_append]

theorem count_newLine_listing (k : Kernel) (nodes : List Addr) (name : Addr → List UInt8) :
    (k.listing nodes name).count .newLine = nodes.length + 8 := by
  have hlines : (nodes.flatMap fun n => infoText decimalChars (k.processOf n) (name n)).count .newLine
      = nodes.length := by
    simp [List.count_flatMap, Function.comp_def, count_newLine_infoText]
  have htail : ([.newLine, .newLine, .newLine] : List Glyph).count .newLine = 3 := rfl
  rw [Kernel.listing, List.count_append, List.count_append, count_newLine_headerText, hlines, htail]
  omega

/-- The number of the processes in the header counts the rounds of the one loop, the number of lines the
rounds of the other. -/
theorem of_text (h : k.PsRing nodes name)
    (htext : printAllProcess fuel k ([] : List Glyph) i headerI = .ok (k.listing nodes name)) :
    i = 0 ∧ headerI = 0 ∧ k.ShortNumbers nodes := by
  have hpos : 0 < nodes.length := List.length_pos_of_mem h.ring.head_mem
  obtain ⟨count, t, hcount, hbounds, hlines, ht⟩ := h.printAllProcess_inv htext
  -- The number of lines is the number of line ends, as no text has one inside.
  have hi : i = 0 := by
    obtain ⟨lines, hlines, hrounds⟩ := printProcesses_inv hlines
    have htail : ([.newLine, .newLine, .newLine] : List Glyph).count .newLine = 3 := rfl
    have hnewLines := congrArg (List.count Glyph.newLine) ht
    rw [count_newLine_listing, hlines, Glyph.foldl_on, List.count_append, List.count_append,
      count_newLine_headerText, hrounds, htail, h.size] at hnewLines
    omega
  -- With as many rounds as there are processes each is visited once.
  subst hi
  have hrounds : (k.queueSize - 0).toNat = nodes.length := by
    rw [h.size, sub_zero, Int.toNat_natCast]
  rw [hrounds] at hlines
  obtain ⟨hnumbers, hlines⟩ := printProcesses_path_inv h.ring.path h.names hlines
  rw [hlines, Glyph.foldl_on, Kernel.listing, List.append_assoc, List.append_assoc] at ht
  -- Header and lines are compared separately, and the header has the number of rounds of its loop.
  obtain ⟨hcounts, htotals, hrest⟩ := headerText_append_inj hbounds ht.symm
  refine ⟨rfl, ?_, htotals, infoTexts_inj hnumbers hrest⟩
  have hprocess := countProcesses_process hcount
  rw [hcounts, h.size, zero_add] at hprocess
  replace hprocess : (nodes.length : Int) = ((nodes.length : Int) - headerI).toNat := hprocess
  omega

end Kernel.PsRing

variable {k : Kernel} {nodes : List Addr} {name : Addr → List UInt8}

/-- The listing is complete if and only if the counters happened to hold 0 and every number is a digit. -/
theorem listing_complete_iff (h : k.PsRing nodes name) (v : Video) (i headerI : Int) :
    k.PrintsListing v nodes name i headerI ↔ i = 0 ∧ headerI = 0 ∧ k.ShortNumbers nodes := by
  constructor
  · intro hlists
    obtain ⟨fuel, htext⟩ := hlists.text.exists_fuel
    exact h.of_text htext
  · rintro ⟨rfl, rfl, hshort⟩
    have htext := h.printAllProcess_returns hshort ([] : List Glyph)
    rw [Glyph.foldl_on, List.nil_append] at htext
    exact ⟨htext, h.printAllProcess_returns hshort v⟩

/-- One process, ready and with one thread and no name. -/
def Kernel.oneProcess : Kernel :=
  { zeroKernel with
    processQueue := 1
    queueSize := 1
    schedulerNode := fun _ => ⟨2, 1⟩
    process := fun _ => ⟨0, 0, .READY, 3, 0, 0, 1, 0, 0, 0⟩ }

theorem Kernel.oneProcess_ring : Kernel.oneProcess.PsRing [1] fun _ => [] where
  ring := ⟨⟨rfl, rfl⟩, List.cons_ne_nil _ _, List.nodup_singleton _⟩
  size := rfl
  nodes_ne := by decide
  processes_ne := by decide
  names _ _ := .succ rfl (fun _ => rfl) (.const _ _)
  alive := by decide

/-- With another content of the stack nothing is printed of the process. -/
theorem listing_incomplete : ¬ ∀ (k : Kernel) (nodes : List Addr) (name : Addr → List UInt8),
    k.PsRing nodes name → ∀ (v : Video) (i headerI : Int), k.PrintsListing v nodes name i headerI := by
  intro hclaim
  have hlists := hclaim _ _ _ Kernel.oneProcess_ring (Display.blankAt 0).video 1 0
  obtain ⟨fuel, htext⟩ := hlists.text.exists_fuel
  exact absurd (Kernel.oneProcess_ring.of_text htext).1 (by decide)

theorem listing_complete_one_process :
    Kernel.oneProcess.PrintsListing (Display.blankAt 0).video [1] (fun _ => []) 0 0 :=
  (listing_complete_iff Kernel.oneProcess_ring _ _ _).mpr ⟨rfl, rfl, by decide, by decide⟩

end BasicKernel
