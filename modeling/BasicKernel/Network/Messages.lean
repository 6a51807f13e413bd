import Mathlib
import BasicKernel.Network.Bounds
import BasicKernel.Lib.RingBuffer
import BasicKernel.Lib.Transition

set_option autoImplicit false

/-! # The ring of received messages

The interrupt handler takes a slot for free if the first byte of its frame is 0, `getMsg` takes the
ring for empty if the two indices are equal, and no slot is ever freed. The two tests agree while
the slots are used for the first time and the indices do not meet.

`ring_lossless` says that nothing is lost in a run in which every frame for this host finds a
spare slot, and exactly when one frame more is too much. `full_ring_counts_as_empty` is the ring
after a hundred frames.
-/

namespace BasicKernel

open Transition RingBuffer

/-! ## Histories

The driver does not count what it has accepted. The two lists stand beside it, and the ring should
hold their difference. -/

/-- The driver, the frames for this host that it has accepted and those of them that `getMsg` has
returned. -/
structure MessageLog where
  driver : RTL8139
  accepted : List RawFrame
  returned : List RawFrame

/-- The handler would store a frame for this host. -/
def RTL8139.HasRoom (s : RTL8139) : Prop := (s.messages s.nexToWrite).macDest 0 = 0

instance (s : RTL8139) : Decidable s.HasRoom := by unfold RTL8139.HasRoom; infer_instance

/-- A frame arrives and the card reports it. -/
def MessageLog.receive (L : MessageLog) (mac : Bytes MAC_SIZE) (frame : RawFrame)
    (status : UInt16) : MessageLog where
  driver := (rtlHandler (L.driver.arrive frame) mac status).2
  accepted := if L.driver.HasRoom ∧ isForMe mac frame then L.accepted ++ [frame] else L.accepted
  returned := L.returned

/-- Interrupts and calls of `getMsg`, on a host with the address `mac`. `Allowed` says which frames
may arrive, in which states. -/
inductive MessageStep (mac : Bytes MAC_SIZE) (Allowed : RTL8139 → RawFrame → Prop) :
    MessageLog → MessageLog → Prop
  | receive {L : MessageLog} {frame : RawFrame} {status : UInt16} :
      status &&& CHECK_ROK ≠ 0 → Allowed L.driver frame →
      MessageStep mac Allowed L (L.receive mac frame status)
  | getMsg {s s' : RTL8139} {accepted returned : List RawFrame} {msg m : EthMsg} {n : Nat} :
      getMsg s msg = .ok (n, m, s') →
      MessageStep mac Allowed ⟨s, accepted, returned⟩ ⟨s', accepted,
        if n = 0 then returned else returned ++ [s.messages s.nextToRead]⟩

/-- The state after the initialisation. -/
def MessageLog.AtStart (L : MessageLog) : Prop := L = ⟨.static, [], []⟩

/-- The ring has lost nothing, and the next interrupt and the next `getMsg` do right. -/
structure MessageLog.Lossless (mac : Bytes MAC_SIZE) (L : MessageLog) : Prop where
  order : L.returned <+: L.accepted
  next : ∀ {msg m : EthMsg} {n : Nat} {s' : RTL8139}, getMsg L.driver msg = .ok (n, m, s') →
    n ≠ 0 → ∃ frame rest, L.accepted = L.returned ++ frame :: rest ∧ m.ReadFrom frame
  refused : ∀ frame, isForMe mac frame → ¬ L.driver.HasRoom →
    L.accepted.length = L.returned.length + MESSAGE_BUFFER_SIZE
  empty : ∀ {msg m : EthMsg} {s' : RTL8139}, getMsg L.driver msg = .ok (0, m, s') →
    L.accepted = L.returned

/-- The slot behind the next one was never used, and is not the one that is read next. -/
def RTL8139.Spare (s : RTL8139) : Prop :=
  s.nexToWrite + 1 ≠ s.nextToRead ∧ (s.messages (s.nexToWrite + 1)).macDest 0 = 0

/-! ## The invariant

The frames that are not yet read lie between the two indices, and all cells outside were never
used. -/

/-- The cells of the ring by their index. -/
def RTL8139.cells (s : RTL8139) (i : Nat) : RawFrame := s.messages (Fin.ofNat MESSAGE_BUFFER_SIZE i)

structure MessageLog.Kept (L : MessageLog) (unread : List RawFrame) : Prop where
  log : L.accepted = L.returned ++ unread
  window : Window MESSAGE_BUFFER_SIZE L.driver.cells L.driver.nextToRead L.driver.nexToWrite unread
  short : unread.length < MESSAGE_BUFFER_SIZE
  room : L.driver.HasRoom

theorem RTL8139.cells_val (s : RTL8139) (i : Fin MESSAGE_BUFFER_SIZE) :
    s.cells i = s.messages i := by
  unfold RTL8139.cells
  congr 1
  exact Fin.ext (Nat.mod_eq_of_lt i.isLt)

theorem Fin.val_succ_ring (i : Fin MESSAGE_BUFFER_SIZE) :
    ((i + 1 : Fin MESSAGE_BUFFER_SIZE) : Nat) = (i + 1) % MESSAGE_BUFFER_SIZE := rfl

/-- A call of `getMsg` that returned, on a ring that the indices say is not empty. -/
theorem getMsg_inv {s s' : RTL8139} {msg m : EthMsg} {n : Nat} (h : getMsg s msg = .ok (n, m, s'))
    (hne : s.nextToRead ≠ s.nexToWrite) :
    n ≠ 0 ∧ m.ReadFrom (s.messages s.nextToRead) ∧
      s' = { s with nextToRead := s.nextToRead + 1 } := by
  have hnext : s.Next (s.messages s.nextToRead) := ⟨hne, rfl⟩
  have hbounds := (getMsg_isOk hnext).mp ⟨_, h⟩
  obtain ⟨m₁, hm₁, hread⟩ := @getMsg_spec s _ msg hnext (by rw [UInt16.toNat_pred]; omega)
  rw [h] at hm₁
  obtain ⟨rfl, hm⟩ := Prod.mk.inj (Except.ok.inj hm₁)
  obtain ⟨rfl, rfl⟩ := Prod.mk.inj hm
  exact ⟨Nat.succ_ne_zero _, hread, rfl⟩

theorem getMsg_empty {s s' : RTL8139} {msg m : EthMsg} {n : Nat}
    (h : getMsg s msg = .ok (n, m, s')) (heq : s.nextToRead = s.nexToWrite) : n = 0 ∧ s' = s := by
  unfold getMsg at h
  rw [if_pos heq] at h
  obtain ⟨hn, h'⟩ := Prod.mk.inj (Except.ok.inj h)
  obtain ⟨-, hs⟩ := Prod.mk.inj h'
  exact ⟨hn.symm, hs.symm⟩

/-- The driver after a frame for this host. -/
theorem MessageLog.receive_accepts {mac : Bytes MAC_SIZE} {L : MessageLog}
    (hroom : L.driver.HasRoom) {frame : RawFrame} {status : UInt16}
    (hstatus : status &&& CHECK_ROK ≠ 0) (hforMe : isForMe mac frame) :
    L.receive mac frame status =
      ⟨{ L.driver.arrive frame with
          messages := Function.update L.driver.messages L.driver.nexToWrite frame
          nexToWrite := L.driver.nexToWrite + 1 }, L.accepted ++ [frame], L.returned⟩ := by
  have hroom' : ((L.driver.arrive frame).messages (L.driver.arrive frame).nexToWrite).macDest 0 = 0 :=
    hroom
  unfold MessageLog.receive
  rw [if_pos ⟨hroom, hforMe⟩, rtlHandler_accepts hstatus hroom'
    (by rw [RTL8139.received_arrive]; exact hforMe), RTL8139.received_arrive]
  rfl

namespace MessageLog.Kept

variable {mac : Bytes MAC_SIZE} {L : MessageLog} {unread : List RawFrame}

theorem of_atStart (h : L.AtStart) : L.Kept [] := by
  obtain rfl := h
  constructor
  · rfl
  · exact .empty (by decide) _
  · decide
  · show Bytes.byte (fun _ : Fin ETH_FRAME_SIZE => 0) 0 = 0
    exact dif_pos (by decide)

theorem pointers_eq_iff (h : L.Kept unread) :
    L.driver.nextToRead = L.driver.nexToWrite ↔ unread = [] := by
  rw [← h.window.pointers_eq_iff h.short]
  exact Fin.ext_iff

theorem lossless (h : L.Kept unread) : L.Lossless mac := by
  constructor
  case order => exact ⟨unread, h.log.symm⟩
  case next =>
    intro msg m n s' hget hn
    cases unread with
    | nil => exact absurd (getMsg_empty hget (h.pointers_eq_iff.mpr rfl)).1 hn
    | cons frame rest =>
        have hne : L.driver.nextToRead ≠ L.driver.nexToWrite := fun heq =>
          absurd (h.pointers_eq_iff.mp heq) (List.cons_ne_nil frame rest)
        refine ⟨frame, rest, h.log, ?_⟩
        rw [← h.window.read_eq, RTL8139.cells_val]
        exact (getMsg_inv hget hne).2.1
  case refused => exact fun _ _ hfull => absurd h.room hfull
  case empty =>
    intro msg m s' hget
    have hnil : unread = [] := by
      by_contra hcons
      exact (getMsg_inv hget fun heq => hcons (h.pointers_eq_iff.mp heq)).1 rfl
    rw [h.log, hnil, List.append_nil]

/-- A frame for another host changes nothing but the receive buffer. -/
theorem receive_foreign {frame : RawFrame} {status : UInt16} (hstatus : status &&& CHECK_ROK ≠ 0)
    (hforMe : ¬ isForMe mac frame) :
    L.receive mac frame status = ⟨L.driver.arrive frame, L.accepted, L.returned⟩ := by
  have hforMe' : ¬ isForMe mac (L.driver.arrive frame).received := by
    rwa [RTL8139.received_arrive]
  unfold MessageLog.receive rtlHandler
  rw [if_pos hstatus, if_neg fun hand => hforMe' hand.2, if_neg fun hand => hforMe hand.2]

/-- The indices meet exactly if one more frame fills the ring. -/
theorem meets_iff (h : L.Kept unread) :
    L.driver.nexToWrite + 1 = L.driver.nextToRead ↔ unread.length + 1 = MESSAGE_BUFFER_SIZE := by
  have hread := h.window.read_lt
  have hshort := h.short
  rw [Fin.ext_iff, Fin.val_succ_ring, h.window.write_eq]
  unfold MESSAGE_BUFFER_SIZE at *
  omega

/-- A frame for this host keeps the invariant exactly if there is a spare slot. -/
theorem receive (h : L.Kept unread) {frame : RawFrame} {status : UInt16}
    (hstatus : status &&& CHECK_ROK ≠ 0) (hforMe : isForMe mac frame) (hspare : L.driver.Spare) :
    (L.receive mac frame status).Kept (unread ++ [frame]) := by
  rw [MessageLog.receive_accepts h.room hstatus hforMe]
  -- With a spare slot the two indices do not meet, so that one more frame stays below a full turn.
  have hshort : unread.length + 1 < MESSAGE_BUFFER_SIZE :=
    lt_of_le_of_ne h.short fun heq => hspare.1 (h.meets_iff.mpr heq)
  constructor
  · show L.accepted ++ [frame] = L.returned ++ (unread ++ [frame])
    rw [h.log, List.append_assoc]
  · refine (h.window.push h.short).congr fun i _ => ?_
    show Function.update L.driver.messages L.driver.nexToWrite frame
        (Fin.ofNat MESSAGE_BUFFER_SIZE ((L.driver.nextToRead + i) % MESSAGE_BUFFER_SIZE)) =
      Function.update L.driver.cells L.driver.nexToWrite frame
        ((L.driver.nextToRead + i) % MESSAGE_BUFFER_SIZE)
    -- The new frame is at the end of the window, everything before it keeps its slot.
    by_cases hi : (L.driver.nextToRead + i) % MESSAGE_BUFFER_SIZE = L.driver.nexToWrite
    · have hcell : Fin.ofNat MESSAGE_BUFFER_SIZE ((L.driver.nextToRead + i) % MESSAGE_BUFFER_SIZE)
          = L.driver.nexToWrite := by
        rw [hi]
        exact Fin.ext (Nat.mod_eq_of_lt L.driver.nexToWrite.isLt)
      rw [hcell, hi, Function.update_self, Function.update_self]
    · have hcell : Fin.ofNat MESSAGE_BUFFER_SIZE ((L.driver.nextToRead + i) % MESSAGE_BUFFER_SIZE)
          ≠ L.driver.nexToWrite := by
        rintro heq
        rw [← heq] at hi
        exact hi (Nat.mod_mod _ _).symm
      rw [Function.update_of_ne hcell, Function.update_of_ne hi]
      rfl
  · rw [List.length_append, List.length_singleton]
    exact hshort
  -- The next slot is not the one just filled, hence still free.
  · show (Function.update L.driver.messages L.driver.nexToWrite frame
      (L.driver.nexToWrite + 1)).macDest 0 = 0
    rw [Function.update_of_ne, hspare.2]
    generalize L.driver.nexToWrite = w
    revert w
    decide

theorem getMsg {s s' : RTL8139} {accepted returned : List RawFrame} {msg m : EthMsg} {n : Nat}
    (h : MessageLog.Kept ⟨s, accepted, returned⟩ unread)
    (hget : BasicKernel.getMsg s msg = .ok (n, m, s')) :
    ∃ unread', MessageLog.Kept ⟨s', accepted,
      if n = 0 then returned else returned ++ [s.messages s.nextToRead]⟩ unread' := by
  cases unread with
  | nil =>
      obtain ⟨rfl, rfl⟩ := getMsg_empty hget (h.pointers_eq_iff.mpr rfl)
      exact ⟨[], h⟩
  | cons frame rest =>
      have hne : s.nextToRead ≠ s.nexToWrite := fun heq =>
        absurd (h.pointers_eq_iff.mp heq) (List.cons_ne_nil frame rest)
      obtain ⟨hn, -, rfl⟩ := getMsg_inv hget hne
      have hframe : s.messages s.nextToRead = frame := by
        rw [← RTL8139.cells_val]
        exact h.window.read_eq
      refine ⟨rest, ?_, ?_, Nat.lt_of_succ_lt h.short, h.room⟩
      · rw [if_neg hn, hframe, List.append_assoc]
        exact h.log
      · exact h.window.pop

end MessageLog.Kept

/-! ## Runs

The condition is read on the state before the interrupt, and decides whether one more frame is
stored. -/

variable {mac : Bytes MAC_SIZE} {L : MessageLog}

/-- One more frame for this host is well received exactly if there is a spare slot. -/
theorem MessageLog.Kept.lossless_receive_iff {unread : List RawFrame} (h : L.Kept unread)
    {frame : RawFrame} {status : UInt16} (hstatus : status &&& CHECK_ROK ≠ 0) :
    (L.receive mac frame status).Lossless mac ↔ (isForMe mac frame → L.driver.Spare) := by
  constructor
  · intro hlossless hforMe
    rw [MessageLog.receive_accepts h.room hstatus hforMe] at hlossless
    -- What the log says about one more frame: `n` unread messages are one more than before.
    have hlength : ∀ n, (L.accepted ++ [frame]).length = L.returned.length + n →
        unread.length + 1 = n := by
      intro n hn
      rw [h.log, List.append_assoc, List.length_append, List.length_append,
        List.length_singleton] at hn
      exact Nat.add_left_cancel hn
    -- If the indices met, `getMsg` would report an empty ring with a message in it.
    have happart : L.driver.nexToWrite + 1 ≠ L.driver.nextToRead := by
      intro hmeet
      have hget : ∃ m s', BasicKernel.getMsg { L.driver.arrive frame with
          messages := Function.update L.driver.messages L.driver.nexToWrite frame
          nexToWrite := L.driver.nexToWrite + 1 } ⟨fun _ => 0, fun _ => 0, 0, 0⟩
            = .ok (0, m, s') := ⟨_, _, if_pos hmeet.symm⟩
      obtain ⟨m, s', hget⟩ := hget
      have hall := hlossless.empty hget
      exact absurd (hlength 0 (congrArg List.length hall)) (Nat.succ_ne_zero _)
    refine ⟨happart, ?_⟩
    by_contra hused
    -- If the next slot were used, a broadcast would be refused although the log promises its room.
    have hbroadcast : isForMe mac fun _ => BROADCAST := by
      unfold isForMe
      rw [Bool.or_eq_true]
      right
      exact decide_eq_true fun i => dif_pos (Nat.lt_of_lt_of_le i.isLt (by decide))
    refine happart (h.meets_iff.mpr (hlength _ (hlossless.refused _ hbroadcast fun hroom => hused ?_)))
    have hne : L.driver.nexToWrite + 1 ≠ L.driver.nexToWrite := by
      generalize L.driver.nexToWrite = w
      revert w
      decide
    have hroom' : (Function.update L.driver.messages L.driver.nexToWrite frame
      (L.driver.nexToWrite + 1)).macDest 0 = 0 := hroom
    rwa [Function.update_of_ne hne] at hroom'
  · intro hspare
    -- A frame for another host changes nothing, and is well received whatever the slots.
    by_cases hforMe : isForMe mac frame
    · exact (h.receive hstatus hforMe (hspare hforMe)).lossless
    · rw [MessageLog.Kept.receive_foreign hstatus hforMe]
      exact MessageLog.Kept.lossless ⟨h.log, h.window, h.short, h.room⟩

/-- The ring loses nothing in runs in which every frame for this host finds a spare slot, and after
such a run one more frame is well received exactly if it finds one too. -/
theorem ring_lossless
    (h : Reachable MessageLog.AtStart
      (MessageStep mac fun s frame => isForMe mac frame → s.Spare) L) :
    L.Lossless mac ∧ ∀ frame status, status &&& CHECK_ROK ≠ 0 →
      ((L.receive mac frame status).Lossless mac ↔ (isForMe mac frame → L.driver.Spare)) := by
  obtain ⟨unread, hkept⟩ : ∃ unread, L.Kept unread := by
    refine h.invariant (I := fun L => ∃ unread, L.Kept unread) ?_ fun L L' _ hkept hstep => ?_
    · exact fun L hstart => ⟨[], .of_atStart hstart⟩
    · obtain ⟨unread, hkept⟩ := hkept
      cases hstep with
      | @receive _ frame status hstatus hspare =>
          by_cases hforMe : isForMe mac frame
          · exact ⟨_, hkept.receive hstatus hforMe (hspare hforMe)⟩
          · rw [MessageLog.Kept.receive_foreign hstatus hforMe]
            exact ⟨unread, hkept.log, hkept.window, hkept.short, hkept.room⟩
      | getMsg hget => exact hkept.getMsg hget
  exact ⟨hkept.lossless, fun frame status hstatus => hkept.lossless_receive_iff hstatus⟩

/-! ## A hundred frames

The ring has a hundred cells. The last of a hundred unread frames brings the two indices
together. -/

/-- A broadcast frame arrives `n` times, and nobody reads. -/
def MessageLog.flood (mac : Bytes MAC_SIZE) : Nat → MessageLog
  | 0 => ⟨.static, [], []⟩
  | n + 1 => (MessageLog.flood mac n).receive mac emptyFrame CHECK_ROK

theorem isForMe_emptyFrame (mac : Bytes MAC_SIZE) : isForMe mac emptyFrame := by
  unfold isForMe
  rw [Bool.or_eq_true]
  right
  decide

theorem MessageLog.flood_reachable (mac : Bytes MAC_SIZE) (n : Nat) :
    Reachable MessageLog.AtStart (MessageStep mac fun _ _ => True) (MessageLog.flood mac n) := by
  induction n with
  | zero => exact .start rfl
  | succ n ih => exact .next ih (.receive (by decide) trivial)

/-- The first hundred frames are all stored, each in its own slot. -/
theorem MessageLog.flood_spec (mac : Bytes MAC_SIZE) : ∀ n ≤ MESSAGE_BUFFER_SIZE,
    (MessageLog.flood mac n).driver.nexToWrite = Fin.ofNat MESSAGE_BUFFER_SIZE n ∧
    (MessageLog.flood mac n).driver.nextToRead = 0 ∧
    (∀ i : Fin MESSAGE_BUFFER_SIZE, n ≤ i →
      ((MessageLog.flood mac n).driver.messages i).macDest 0 = 0) ∧
    (MessageLog.flood mac n).accepted.length = n := by
  intro n hn
  -- By induction on the frames: the first `n` slots are filled in order and the others still free.
  induction n with
  | zero =>
      refine ⟨rfl, rfl, fun i _ => ?_, rfl⟩
      show Bytes.byte (fun _ : Fin ETH_FRAME_SIZE => 0) 0 = 0
      exact dif_pos (by decide)
  | succ n ih =>
      obtain ⟨hwrite, hread, hfree, hlength⟩ := ih (Nat.le_of_succ_le hn)
      have hval : ((MessageLog.flood mac n).driver.nexToWrite : Nat) = n := by
        rw [hwrite]
        exact Nat.mod_eq_of_lt hn
      -- The slot to write next is number `n`, which no earlier frame has filled.
      have hroom : (MessageLog.flood mac n).driver.HasRoom := hfree _ (le_of_eq hval.symm)
      have hforMe := isForMe_emptyFrame mac
      have hreceive : MessageLog.flood mac (n + 1) =
          ⟨{ (MessageLog.flood mac n).driver.arrive emptyFrame with
              messages := Function.update (MessageLog.flood mac n).driver.messages
                (MessageLog.flood mac n).driver.nexToWrite emptyFrame
              nexToWrite := (MessageLog.flood mac n).driver.nexToWrite + 1 },
            (MessageLog.flood mac n).accepted ++ [emptyFrame],
            (MessageLog.flood mac n).returned⟩ :=
        MessageLog.receive_accepts hroom (by decide) hforMe
      rw [hreceive]
      refine ⟨?_, hread, fun i hi => ?_, ?_⟩
      · exact Fin.ext (by rw [Fin.val_succ_ring, hval]; rfl)
      · have hne : i ≠ (MessageLog.flood mac n).driver.nexToWrite := by
          intro heq
          rw [heq, hval] at hi
          exact Nat.not_succ_le_self n hi
        show (Function.update (MessageLog.flood mac n).driver.messages
          (MessageLog.flood mac n).driver.nexToWrite emptyFrame i).macDest 0 = 0
        rw [Function.update_of_ne hne]
        exact hfree i (Nat.le_of_succ_le hi)
      · rw [List.length_append, hlength, List.length_singleton]

/-- A hundred frames are unread, and the ring counts as empty. -/
theorem full_ring_counts_as_empty :
    ¬ ∀ (mac : Bytes MAC_SIZE) (L : MessageLog),
      Reachable MessageLog.AtStart (MessageStep mac fun _ _ => True) L → L.Lossless mac := by
  intro hclaim
  have hlossless := hclaim (fun _ => 1) _ (MessageLog.flood_reachable _ MESSAGE_BUFFER_SIZE)
  obtain ⟨hwrite, hread, -, hlength⟩ :=
    MessageLog.flood_spec (fun _ => 1) MESSAGE_BUFFER_SIZE (Nat.le_refl _)
  have hnone : ∀ n, (MessageLog.flood (fun _ => 1) n).returned = [] := by
    intro n
    induction n with
    | zero => rfl
    | succ n ih => exact ih
  have hmeet : (MessageLog.flood (fun _ => 1) MESSAGE_BUFFER_SIZE).driver.nextToRead =
      (MessageLog.flood (fun _ => 1) MESSAGE_BUFFER_SIZE).driver.nexToWrite := by
    rw [hwrite, hread]
    rfl
  obtain ⟨m, s', hget⟩ : ∃ m s', BasicKernel.getMsg
      (MessageLog.flood (fun _ => 1) MESSAGE_BUFFER_SIZE).driver ⟨fun _ => 0, fun _ => 0, 0, 0⟩
        = .ok (0, m, s') := ⟨_, _, if_pos hmeet⟩
  have hall := congrArg List.length (hlossless.empty hget)
  rw [hlength, hnone] at hall
  exact absurd hall (by decide)

/-- The frames of a hundred broadcasts but one are all there. -/
theorem ring_lossless_ninety_nine :
    (MessageLog.flood (fun _ => 1) 99).Lossless fun _ => 1 := by
  refine (ring_lossless ?_).1
  have hreach : ∀ n ≤ 99, Reachable MessageLog.AtStart
      (MessageStep (fun _ => 1) fun s frame => isForMe (fun _ => 1) frame → s.Spare)
      (MessageLog.flood (fun _ => 1) n) := by
    intro n hn
    induction n with
    | zero => exact .start rfl
    | succ n ih =>
        refine .next (ih (Nat.le_of_succ_le hn)) (.receive (by decide) fun _ => ?_)
        obtain ⟨hwrite, hread, hfree, -⟩ :=
          MessageLog.flood_spec (fun _ => 1) n (by unfold MESSAGE_BUFFER_SIZE; omega)
        have hval : (((MessageLog.flood (fun _ => 1) n).driver.nexToWrite + 1 :
            Fin MESSAGE_BUFFER_SIZE) : Nat) = n + 1 := by
          rw [hwrite, Fin.val_succ_ring]
          show (n % MESSAGE_BUFFER_SIZE + 1) % MESSAGE_BUFFER_SIZE = n + 1
          unfold MESSAGE_BUFFER_SIZE
          omega
        refine ⟨fun heq => ?_, hfree _ (by rw [hval]; exact Nat.le_succ n)⟩
        rw [heq, hread] at hval
        exact absurd hval (Nat.succ_ne_zero n).symm
  exact hreach 99 (Nat.le_refl _)

end BasicKernel
