import Mathlib.Tactic

set_option autoImplicit false

/-! # Forks

The table of the philosophers, and what a dinner does to it. `Seating` is the dinner without its
threads and locks: in which phase everybody is, who is about to signal whom, and who has no signal. In
every state of a dinner in which signals do not survive the meal they are for, two neighbours never eat
at once.

`Seating.Sound` is the invariant and `Seating.Sound.moves` keeps it. `Userland/Philosophers.lean`
shows that a run of the program is such a dinner.
-/

namespace BasicKernel

/-- `PHILOSOPHERS_COUNT` -/
def PHILOSOPHERS_COUNT : Nat := 3

/-- The number of a philosopher. -/
abbrev PhiloId := Fin PHILOSOPHERS_COUNT

/-- `State` -/
inductive PhiloState where
  | HUNGRY | THINKING | EATING
  deriving DecidableEq

def left (i : PhiloId) : PhiloId :=
  ⟨(i + PHILOSOPHERS_COUNT - 1) % PHILOSOPHERS_COUNT, Nat.mod_lt _ (by decide)⟩

def right (i : PhiloId) : PhiloId :=
  ⟨(i + 1) % PHILOSOPHERS_COUNT, Nat.mod_lt _ (by decide)⟩

/-- The static variables of the program that change after its start. -/
structure Table where
  philoState : PhiloId → PhiloState
  forkState : PhiloId → Int

namespace Table

/-- What `philosophers` stores. -/
def start : Table := ⟨fun _ => .THINKING, fun _ => -1⟩

/-- The condition of `checkForks`. -/
def forksAvailable (m : Table) (i : PhiloId) : Bool :=
  m.philoState i = .HUNGRY ∧ m.philoState (left i) ≠ .EATING ∧ m.philoState (right i) ≠ .EATING

/-- `philoState[philoId] = EATING`, and the forks. -/
def pickUp (m : Table) (i : PhiloId) : Table where
  philoState := Function.update m.philoState i .EATING
  forkState := Function.update (Function.update m.forkState (left i) i) i i

/-- `philoState[philoId] = THINKING`, and the forks. -/
def putDown (m : Table) (i : PhiloId) : Table where
  philoState := Function.update m.philoState i .THINKING
  forkState := Function.update (Function.update m.forkState (left i) (-1)) i (-1)

end Table

/-! ## Neighbours -/

theorem left_ne (i : PhiloId) : left i ≠ i := by
  revert i
  decide

theorem right_ne (i : PhiloId) : right i ≠ i := by
  revert i
  decide

theorem right_left (i : PhiloId) : right (left i) = i := by
  revert i
  decide

theorem left_right (i : PhiloId) : left (right i) = i := by
  revert i
  decide

theorem left_injective : Function.Injective left :=
  Function.LeftInverse.injective right_left

/-! ## Dinners

A dinner is sound when every fork that is in use belongs to the one who eats with it, and every
signal to one who may eat. -/

inductive Phase where
  /-- between a meal and the next call of `takeForks` -/
  | rests
  /-- in `takeForks`, not hungry yet -/
  | enters
  /-- hungry, or with forks and not returned from `takeForks` -/
  | asks
  /-- returned from `takeForks`, with the forks -/
  | eats
  deriving DecidableEq

structure Seating where
  phase : PhiloId → Phase
  /-- whom the philosopher is about to signal -/
  signals : PhiloId → Option PhiloId
  /-- no signal is there for the philosopher -/
  locked : PhiloId → Bool
  table : Table

namespace Seating

inductive Moves (S : Seating) : Seating → Prop
  | enter {i : PhiloId} : S.phase i = .rests → S.locked i →
      Moves S { S with phase := Function.update S.phase i .enters }
  | ask {i : PhiloId} : S.phase i = .enters →
      Moves S { S with
        phase := Function.update S.phase i .asks
        table := { S.table with philoState := Function.update S.table.philoState i .HUNGRY } }
  | grant {i j : PhiloId} : S.signals j = none → S.table.forksAvailable i →
      Moves S { S with
        signals := Function.update S.signals j (some i)
        table := S.table.pickUp i }
  | signal {i j : PhiloId} : S.signals j = some i →
      Moves S { S with
        signals := Function.update S.signals j none
        locked := Function.update S.locked i false }
  | wake {i j : PhiloId} : S.signals j = some i →
      Moves S { S with
        phase := Function.update S.phase i .eats
        signals := Function.update S.signals j none
        locked := Function.update S.locked i false }
  | take {i : PhiloId} : S.phase i = .asks → S.locked i = false →
      Moves S { S with
        phase := Function.update S.phase i .eats
        locked := Function.update S.locked i true }
  | think {i : PhiloId} : S.phase i = .eats →
      Moves S { S with
        phase := Function.update S.phase i .rests
        table := S.table.putDown i }

/-- What holds of a philosopher in its phase. -/
def Fits (S : Seating) (i : PhiloId) : Prop :=
  match S.phase i with
  | .rests => S.table.philoState i = .THINKING
  | .enters => S.table.philoState i = .THINKING ∧ S.locked i
  | .asks => S.table.philoState i = .HUNGRY ∧ S.locked i ∨
      S.table.philoState i = .EATING ∧ ((∃ j, S.signals j = some i) ∨ S.locked i = false)
  | .eats => S.table.philoState i = .EATING

/-- Every meal has its forks and one signal, which is on its way, or there, or taken. -/
structure Sound (S : Seating) : Prop where
  fits : ∀ i, S.Fits i
  signals : ∀ i j, S.signals j = some i →
    S.phase i = .asks ∧ S.table.philoState i = .EATING ∧ S.locked i
  one : ∀ i j j', S.signals j = some i → S.signals j' = some i → j = j'
  forks : ∀ i, S.table.philoState i = .EATING →
    (S.table.forkState (left i) = i ∧ S.table.forkState i = i) ∧
      S.table.philoState (left i) ≠ .EATING ∧ S.table.philoState (right i) ≠ .EATING

variable {S S' : Seating} {i j : PhiloId}

theorem fits_rests (h : S.phase i = .rests) : S.Fits i ↔ S.table.philoState i = .THINKING := by
  unfold Fits
  rw [h]

theorem fits_enters (h : S.phase i = .enters) :
    S.Fits i ↔ S.table.philoState i = .THINKING ∧ S.locked i := by
  unfold Fits
  rw [h]

theorem fits_asks (h : S.phase i = .asks) : S.Fits i ↔
    S.table.philoState i = .HUNGRY ∧ S.locked i ∨
      S.table.philoState i = .EATING ∧ ((∃ j, S.signals j = some i) ∨ S.locked i = false) := by
  unfold Fits
  rw [h]

theorem fits_eats (h : S.phase i = .eats) : S.Fits i ↔ S.table.philoState i = .EATING := by
  unfold Fits
  rw [h]

/-- What fits a philosopher depends on what concerns it. -/
theorem Fits.congr (h : S.Fits i) (hphase : S'.phase i = S.phase i)
    (hstate : S'.table.philoState i = S.table.philoState i) (hlocked : S'.locked i = S.locked i)
    (hsignals : (∃ j, S'.signals j = some i) ↔ ∃ j, S.signals j = some i) : S'.Fits i := by
  unfold Fits at h ⊢
  rw [hphase, hstate, hlocked, hsignals]
  exact h

namespace Sound

/-- Nobody signals a philosopher who does not ask. -/
theorem no_signal (h : S.Sound) (hi : S.phase i ≠ .asks) (j : PhiloId) : S.signals j ≠ some i :=
  fun hj => hi (h.signals i j hj).1

/-- Who is hungry asks, and has no signal and no one who will give it. -/
theorem of_hungry (h : S.Sound) (hi : S.table.philoState i = .HUNGRY) :
    S.phase i = .asks ∧ S.locked i ∧ ∀ j, S.signals j ≠ some i := by
  have hfits := h.fits i
  have hnone : ∀ j, S.signals j ≠ some i := by
    intro j hj
    have := (h.signals i j hj).2.1
    rw [hi] at this
    cases this
  cases hphase : S.phase i with
  | rests =>
      rw [fits_rests hphase, hi] at hfits
      cases hfits
  | enters =>
      rw [fits_enters hphase, hi] at hfits
      cases hfits.1
  | asks =>
      rw [fits_asks hphase, hi] at hfits
      rcases hfits with ⟨-, hlocked⟩ | ⟨hstate, -⟩
      · exact ⟨rfl, hlocked, hnone⟩
      · cases hstate
  | eats =>
      rw [fits_eats hphase, hi] at hfits
      cases hfits

/-! ### What the moves preserve

One lemma for each move. A philosopher who picks up two forks leaves those of all others alone. -/

theorem enter (h : S.Sound) (hi : S.phase i = .rests) (hlocked : S.locked i) :
    Sound { S with phase := Function.update S.phase i .enters } where
  fits m := by
    by_cases hmi : m = i
    · subst hmi
      exact (fits_enters (Function.update_self ..)).mpr ⟨(fits_rests hi).mp (h.fits m), hlocked⟩
    · exact (h.fits m).congr (Function.update_of_ne hmi ..) rfl rfl Iff.rfl
  signals m j hj := by
    have hmi : m ≠ i := fun heq => h.no_signal (by rw [hi]; decide) j (heq ▸ hj)
    exact ⟨(Function.update_of_ne hmi ..).trans (h.signals m j hj).1, (h.signals m j hj).2⟩
  one := h.one
  forks := h.forks

theorem ask (h : S.Sound) (hi : S.phase i = .enters) :
    Sound { S with
      phase := Function.update S.phase i .asks
      table := { S.table with philoState := Function.update S.table.philoState i .HUNGRY } } where
  -- Who asks is hungry and locked, everybody else as before.
  fits m := by
    by_cases hmi : m = i
    · subst hmi
      exact (fits_asks (Function.update_self ..)).mpr
        (.inl ⟨Function.update_self .., ((fits_enters hi).mp (h.fits m)).2⟩)
    · exact (h.fits m).congr (Function.update_of_ne hmi ..) (Function.update_of_ne hmi ..) rfl
        Iff.rfl
  -- The asking philosopher is nobody's signal, as signals are for those who ask already.
  signals m j hj := by
    have hmi : m ≠ i := fun heq => h.no_signal (by rw [hi]; decide) j (heq ▸ hj)
    obtain ⟨hasks, heating, hlocked⟩ := h.signals m j hj
    exact ⟨(Function.update_of_ne hmi ..).trans hasks, (Function.update_of_ne hmi ..).trans heating,
      hlocked⟩
  one := h.one
  -- `HUNGRY` is not `EATING`, so nobody new eats.
  forks m hm := by
    have hstate : ∀ x, Function.update S.table.philoState i .HUNGRY x = .EATING →
        S.table.philoState x = .EATING := by
      intro x hx
      by_cases hxi : x = i
      · rw [hxi, Function.update_self] at hx
        cases hx
      · rwa [Function.update_of_ne hxi] at hx
    obtain ⟨hforks, hleft, hright⟩ := h.forks m (hstate m hm)
    exact ⟨hforks, fun hx => hleft (hstate _ hx), fun hx => hright (hstate _ hx)⟩

/-- Who else eats is no neighbour, and needs other forks. -/
theorem forks_pickUp (h : S.Sound) (hi : S.table.forksAvailable i) (m : PhiloId)
    (hm : (S.table.pickUp i).philoState m = .EATING) :
    ((S.table.pickUp i).forkState (left m) = m ∧ (S.table.pickUp i).forkState m = m) ∧
      (S.table.pickUp i).philoState (left m) ≠ .EATING ∧
      (S.table.pickUp i).philoState (right m) ≠ .EATING := by
  obtain ⟨-, hleft, hright⟩ := of_decide_eq_true hi
  unfold Table.pickUp at hm ⊢
  dsimp only at hm ⊢
  by_cases hmi : m = i
  · subst hmi
    rw [Function.update_of_ne (left_ne m), Function.update_self, Function.update_self,
      Function.update_of_ne (left_ne m), Function.update_of_ne (right_ne m)]
    exact ⟨⟨rfl, rfl⟩, hleft, hright⟩
  · rw [Function.update_of_ne hmi] at hm
    obtain ⟨⟨hfork, hfork'⟩, hleft', hright'⟩ := h.forks m hm
    have hli : left m ≠ i := fun heq => hright (by rw [← heq, right_left]; exact hm)
    have hri : right m ≠ i := fun heq => hleft (by rw [← heq, left_right]; exact hm)
    have hml : m ≠ left i := fun heq => hleft (by rw [← heq]; exact hm)
    rw [Function.update_of_ne hli, Function.update_of_ne fun heq => hmi (left_injective heq),
      Function.update_of_ne hmi, Function.update_of_ne hml, Function.update_of_ne hli,
      Function.update_of_ne hri]
    exact ⟨⟨hfork, hfork'⟩, hleft', hright'⟩

theorem grant (h : S.Sound) (hj : S.signals j = none) (hi : S.table.forksAvailable i) :
    Sound { S with
      signals := Function.update S.signals j (some i)
      table := S.table.pickUp i } := by
  obtain ⟨hhungry, -, -⟩ := of_decide_eq_true hi
  obtain ⟨hasks, hlocked, hnone⟩ := h.of_hungry hhungry
  -- The only new signal is that of `j` for `i`, who had none.
  have hold : ∀ m j', m ≠ i → (Function.update S.signals j (some i) j' = some m ↔
      S.signals j' = some m) := by
    intro m j' hmi
    by_cases hjj : j' = j
    · rw [hjj, Function.update_self, hj]
      constructor
      · intro heq
        exact absurd (Option.some.inj heq).symm hmi
      · intro heq
        cases heq
    · rw [Function.update_of_ne hjj]
  have hnew : ∀ j', Function.update S.signals j (some i) j' = some i → j' = j := by
    intro j' hj'
    by_contra hjj
    rw [Function.update_of_ne hjj] at hj'
    exact hnone j' hj'
  constructor
  case fits =>
      -- The philosopher `i` now eats in the table and has a signal to come.
      intro m
      by_cases hmi : m = i
      · subst hmi
        refine (fits_asks ?_).mpr (.inr ⟨?_, .inl ⟨j, ?_⟩⟩)
        · exact hasks
        · exact Function.update_self ..
        · exact Function.update_self ..
      · exact (h.fits m).congr rfl (Function.update_of_ne hmi ..) rfl
          (exists_congr fun j' => hold m j' hmi)
  case signals =>
      intro m j' hj'
      by_cases hmi : m = i
      · subst hmi
        exact ⟨hasks, Function.update_self .., hlocked⟩
      · obtain ⟨hasks', heating, hlocked'⟩ := h.signals m j' ((hold m j' hmi).mp hj')
        exact ⟨hasks', (Function.update_of_ne hmi ..).trans heating, hlocked'⟩
  case one =>
      intro m j₁ j₂ h₁ h₂
      by_cases hmi : m = i
      · subst hmi
        rw [hnew j₁ h₁, hnew j₂ h₂]
      · exact h.one m j₁ j₂ ((hold m j₁ hmi).mp h₁) ((hold m j₂ hmi).mp h₂)
  case forks => exact h.forks_pickUp hi

/-- Who is left to be signalled, when one signal was given. -/
theorem signals_given (h : S.Sound) (hj : S.signals j = some i) (m j' : PhiloId) :
    Function.update S.signals j none j' = some m ↔ m ≠ i ∧ S.signals j' = some m := by
  by_cases hjj : j' = j
  · subst hjj
    rw [Function.update_self, hj]
    constructor
    · intro heq
      cases heq
    · rintro ⟨hmi, heq⟩
      exact absurd (Option.some.inj heq).symm hmi
  · rw [Function.update_of_ne hjj]
    constructor
    · intro hj'
      refine ⟨fun hmi => hjj ?_, hj'⟩
      rw [hmi] at hj'
      exact h.one i j' j hj' hj
    · exact And.right

theorem signal (h : S.Sound) (hj : S.signals j = some i) :
    Sound { S with
      signals := Function.update S.signals j none
      locked := Function.update S.locked i false } := by
  -- The signal of `j` is gone, the others are as they were.
  have hgiven := h.signals_given hj
  obtain ⟨hasks, heating, -⟩ := h.signals i j hj
  constructor
  case fits =>
      -- Who was signalled is unlocked, and still asks until the down returns.
      intro m
      by_cases hmi : m = i
      · subst hmi
        refine (fits_asks ?_).mpr (.inr ⟨?_, .inr ?_⟩)
        · exact hasks
        · exact heating
        · exact Function.update_self ..
      · refine (h.fits m).congr rfl rfl (Function.update_of_ne hmi ..) (exists_congr fun j' => ?_)
        exact (hgiven m j').trans (and_iff_right hmi)
  case signals =>
      intro m j' hj'
      obtain ⟨hmi, hj'⟩ := (hgiven m j').mp hj'
      obtain ⟨hasks', heating', hlocked'⟩ := h.signals m j' hj'
      exact ⟨hasks', heating', (Function.update_of_ne hmi ..).trans hlocked'⟩
  case one =>
      intro m j₁ j₂ h₁ h₂
      exact h.one m j₁ j₂ ((hgiven m j₁).mp h₁).2 ((hgiven m j₂).mp h₂).2
  case forks => exact h.forks

/-- A philosopher who eats. -/
theorem eat (h : S.Sound) (hasks : S.phase i = .asks) (hlocked : S.locked i = false) (b : Bool) :
    Sound { S with
      phase := Function.update S.phase i .eats
      locked := Function.update S.locked i b } := by
  -- An unlocked philosopher who asks was given the forks.
  have heating : S.table.philoState i = .EATING := by
    rcases (fits_asks hasks).mp (h.fits i) with ⟨-, hlocked'⟩ | ⟨heating, -⟩
    · rw [hlocked] at hlocked'
      cases hlocked'
    · exact heating
  -- Its signal was delivered, so nobody has one for it any more.
  have hnone : ∀ j, S.signals j ≠ some i := by
    intro j hj
    have hlocked' := (h.signals i j hj).2.2
    rw [hlocked] at hlocked'
    cases hlocked'
  constructor
  case fits =>
      intro m
      by_cases hmi : m = i
      · subst hmi
        exact (fits_eats (Function.update_self ..)).mpr heating
      · exact (h.fits m).congr (Function.update_of_ne hmi ..) rfl (Function.update_of_ne hmi ..)
          Iff.rfl
  case signals =>
      intro m j hj
      have hmi : m ≠ i := fun heq => hnone j (heq ▸ hj)
      obtain ⟨hasks', heating', hlocked'⟩ := h.signals m j hj
      exact ⟨(Function.update_of_ne hmi ..).trans hasks', heating',
        (Function.update_of_ne hmi ..).trans hlocked'⟩
  case one => exact h.one
  case forks => exact h.forks

theorem think (h : S.Sound) (hi : S.phase i = .eats) :
    Sound { S with
      phase := Function.update S.phase i .rests
      table := S.table.putDown i } := by
  -- Who eats has the forks of both sides.
  have heating := (fits_eats hi).mp (h.fits i)
  constructor
  case fits =>
      intro m
      by_cases hmi : m = i
      · subst hmi
        exact (fits_rests (Function.update_self ..)).mpr (Function.update_self ..)
      · exact (h.fits m).congr (Function.update_of_ne hmi ..) (Function.update_of_ne hmi ..) rfl
          Iff.rfl
  case signals =>
      intro m j hj
      have hmi : m ≠ i := fun heq => h.no_signal (by rw [hi]; decide) j (heq ▸ hj)
      obtain ⟨hasks', heating', hlocked'⟩ := h.signals m j hj
      exact ⟨(Function.update_of_ne hmi ..).trans hasks',
        (Function.update_of_ne hmi ..).trans heating', hlocked'⟩
  case one => exact h.one
  case forks =>
      -- Another one who eats is no neighbour, and its forks are not those put down.
      intro m hm
      have hmi : m ≠ i := by
        rintro rfl
        have hm' : Function.update S.table.philoState m .THINKING m = .EATING := hm
        rw [Function.update_self] at hm'
        cases hm'
      have hm : S.table.philoState m = .EATING := (Function.update_of_ne hmi ..).symm.trans hm
      obtain ⟨⟨hfork, hfork'⟩, hleft, hright⟩ := h.forks m hm
      obtain ⟨-, hileft, hiright⟩ := h.forks i heating
      have hli : left m ≠ i := fun heq => hleft (by rw [heq]; exact heating)
      have hri : right m ≠ i := fun heq => hright (by rw [heq]; exact heating)
      have hml : m ≠ left i := fun heq => hileft (by rw [← heq]; exact hm)
      unfold Table.putDown
      dsimp only
      rw [Function.update_of_ne hli, Function.update_of_ne fun heq => hmi (left_injective heq),
        Function.update_of_ne hmi, Function.update_of_ne hml, Function.update_of_ne hli,
        Function.update_of_ne hri]
      exact ⟨⟨hfork, hfork'⟩, hleft, hright⟩

theorem moves (h : S.Sound) (hmove : S.Moves S') : S'.Sound := by
  cases hmove with
  | enter hi hlocked => exact h.enter hi hlocked
  | ask hi => exact h.ask hi
  | grant hj hi => exact h.grant hj hi
  | signal hj => exact h.signal hj
  | @wake i j hj =>
      have hsound := (h.signal hj).eat (h.signals i j hj).1 (Function.update_self ..) false
      dsimp only at hsound
      rw [Function.update_idem] at hsound
      exact hsound
  | take hasks hlocked => exact h.eat hasks hlocked true
  | think hi => exact h.think hi

end Sound

end Seating

end BasicKernel
