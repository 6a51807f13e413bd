import BasicKernel.Network.Bounds
import BasicKernel.Lib.Transition

set_option autoImplicit false

/-! # Messages on the wire

The sender writes a frame field by field, the receiver reads the bytes as a structure. The two
layouts agree in every byte but one: the high byte of `length` is never sent, so that the receiver
finds there what the transmit buffer holds, a zero from its initialisation.

`message_survives` says that a message arrives as it was sent exactly if its length, with the type
byte, fits into one byte, and `long_message_is_cut` is one that does not.
-/

namespace BasicKernel

open Transition

/-! ## The sender

No store of the driver goes to the high byte of `length`, so it holds what it held at the
start. -/

/-- What the driver does. -/
inductive RTL8139.Step : RTL8139 → RTL8139 → Prop
  | send {s s' : RTL8139} {mac : Bytes MAC_SIZE} {payload : Bytes PAYLOAD_SIZE} {message : EthMsg}
      {n : Nat} : sendMsg s mac payload message = .ok (n, s') → Step s s'
  | interrupt {s : RTL8139} (frame : RawFrame) (mac : Bytes MAC_SIZE) (status : UInt16) :
      Step s (rtlHandler (s.arrive frame) mac status).2
  | getMsg {s s' : RTL8139} {msg m : EthMsg} {n : Nat} :
      getMsg s msg = .ok (n, m, s') → Step s s'

theorem rtlHandler_trBuffer (s : RTL8139) (mac : Bytes MAC_SIZE) (status : UInt16) :
    (rtlHandler s mac status).2.trBuffer = s.trBuffer := by
  unfold rtlHandler
  dsimp only
  split_ifs <;> rfl

theorem getMsg_trBuffer {s s' : RTL8139} {msg m : EthMsg} {n : Nat}
    (h : getMsg s msg = .ok (n, m, s')) : s'.trBuffer = s.trBuffer := by
  unfold getMsg at h
  split at h
  · obtain ⟨-, h⟩ := Prod.mk.inj (Except.ok.inj h)
    obtain ⟨-, rfl⟩ := Prod.mk.inj h
    rfl
  · obtain ⟨mac, -, h⟩ := bind_eq_ok.mp h
    obtain ⟨type, -, h⟩ := bind_eq_ok.mp h
    obtain ⟨text, -, h⟩ := bind_eq_ok.mp h
    obtain ⟨-, h⟩ := Prod.mk.inj (Except.ok.inj h)
    obtain ⟨-, rfl⟩ := Prod.mk.inj h
    rfl

/-- No message is ever written over the high byte of `length`. -/
theorem trBuffer_lengthHigh {s : RTL8139} (h : Reachable (· = .static) RTL8139.Step s) :
    s.trBuffer.byte 13 = 0 := by
  refine h.invariant (I := fun s => s.trBuffer.byte 13 = 0) ?_ fun s s' _ hs hstep => ?_
  · rintro s rfl
    exact dif_pos (by decide)
  · cases hstep with
    | @send _ mac payload message n hsend =>
        obtain ⟨s₁, hs₁, hsent⟩ := sendMsg_spec (sendMsg_isOk.mp ⟨_, hsend⟩)
        rw [hsend] at hs₁
        obtain ⟨-, rfl⟩ := Prod.mk.inj (Except.ok.inj hs₁)
        rw [hsent.lengthHigh, hs]
    | interrupt frame mac status =>
        rw [rtlHandler_trBuffer]
        exact hs
    | getMsg hget => rw [getMsg_trBuffer hget, hs]

/-! ## The receiver -/

/-- The receiver's structure over bytes that a sender sent. -/
structure RawFrame.Carries (frame : RawFrame) (mac : Bytes MAC_SIZE) (message : EthMsg) : Prop where
  macSrc : ∀ i, i < MAC_SIZE → Bytes.byte frame (MAC_SIZE + i) = mac.byte i
  length : frame.length = (message.length + 1).toUInt8.toUInt16
  type : Bytes.byte frame 14 = message.type
  msg : ∀ i, i < message.length.toNat → Bytes.byte frame (15 + i) = message.msg.byte i

theorem RTL8139.byte_received (s : RTL8139) {i : Nat} (hi : i < ETH_FRAME_SIZE) :
    Bytes.byte s.received i = s.reBuffer.byte (4 + i) := dif_pos hi

/-- The bytes of a message that arrive carry it, but for the high byte of its length. -/
theorem Sent.carries {sender s' host : RTL8139} {mac : Bytes MAC_SIZE} {message : EthMsg}
    (h : Sent sender s' mac message) (hhigh : sender.trBuffer.byte 13 = 0)
    (hlen : message.length.toNat ≤ 999)
    (harrive : ∀ i, i < message.length.toNat + 17 → host.reBuffer.byte (4 + i) = s'.trBuffer.byte i) :
    host.received.Carries mac message := by
  have hbyte : ∀ i, i < message.length.toNat + 17 →
      Bytes.byte host.received i = s'.trBuffer.byte i := by
    intro i hi
    rw [host.byte_received (by unfold ETH_FRAME_SIZE; omega), harrive i hi]
  constructor
  · intro i hi
    unfold MAC_SIZE at hi
    rw [hbyte _ (by unfold MAC_SIZE; omega)]
    exact h.macSrc i hi
  · unfold RawFrame.length
    rw [hbyte 12 (by omega), hbyte 13 (by omega), h.lengthLow, h.lengthHigh, hhigh]
    exact UInt16.add_zero _
  · rw [hbyte 14 (by omega), h.type]
  · intro i hi
    rw [hbyte _ (by omega), h.msg i hi]

/-- The low byte of the length is the whole length exactly up to 254. -/
theorem length_low_iff {x : UInt16} (hx : x.toNat ≤ 999) :
    (x + 1).toUInt8.toUInt16 = x + 1 ↔ x.toNat ≤ 254 := by
  have hsucc := UInt16.toNat_succ (show x.toNat < 65535 by omega)
  rw [← UInt16.toNat_inj]
  simp only [UInt8.toNat_toUInt16, UInt16.toNat_toUInt8, hsucc]
  omega

/-! ## From sender to receiver

The message is put together from both ends. Its length arrives in one byte. -/

/-- `getMsg` returns the message. -/
def RTL8139.Delivers (s : RTL8139) (mac : Bytes MAC_SIZE) (message : EthMsg) : Prop :=
  ∀ msg, ∃ n m s', getMsg s msg = .ok (n, m, s') ∧ m.type = message.type ∧
    m.length = message.length ∧
    (∀ i, i < message.length.toNat → m.msg.byte i = message.msg.byte i) ∧
    ∀ i, i < MAC_SIZE → m.mac.byte i = mac.byte i

theorem RawFrame.Carries.delivers_iff {s : RTL8139} {frame : RawFrame} {mac : Bytes MAC_SIZE}
    {message : EthMsg} (h : frame.Carries mac message) (hlen : message.length.toNat ≤ 999)
    (hnext : s.Next frame) : s.Delivers mac message ↔ message.length.toNat ≤ 254 := by
  rw [← length_low_iff hlen, ← h.length]
  constructor
  -- The length comes back only if its high byte is zero, that is up to 254 with the type byte
  -- counted.
  · intro hdelivers
    obtain ⟨n, m, s', hget, -, hlength, -⟩ := hdelivers message
    have hsize : (frame.length - 1).toNat ≤ MSG_SIZE := by
      have hbounds := (getMsg_isOk hnext).mp ⟨_, hget⟩
      rw [UInt16.toNat_pred]
      omega
    obtain ⟨m₁, hget₁, hread⟩ := @getMsg_spec s frame message hnext hsize
    rw [hget] at hget₁
    obtain ⟨-, hm⟩ := Prod.mk.inj (Except.ok.inj hget₁)
    obtain ⟨rfl, -⟩ := Prod.mk.inj hm
    rw [← hlength, hread.length, UInt16.sub_add_cancel]
  -- Conversely the copy is inside the message, and every field is the one that was sent.
  · intro hlength msg
    have hpred : frame.length - 1 = message.length := by
      rw [hlength, UInt16.add_sub_cancel]
    obtain ⟨m, hget, hread⟩ := @getMsg_spec s frame msg hnext (by
      rw [hpred]
      unfold MSG_SIZE
      omega)
    refine ⟨_, m, _, hget, ?_, ?_, ?_, ?_⟩
    · rw [hread.type, h.type]
    · rw [hread.length, hpred]
    · intro i hi
      rw [hread.msg i (by rwa [hread.length, hpred]), h.msg i hi]
    · intro i hi
      rw [hread.mac i hi, h.macSrc i hi]

/-- A message of at most 999 bytes survives the wire exactly if its length is at most 254. -/
theorem message_survives {sender s' host later : RTL8139} {mac hostMac : Bytes MAC_SIZE}
    {payload : Bytes PAYLOAD_SIZE} {message : EthMsg} {n : Nat} {status : UInt16}
    (hsender : Reachable (· = .static) RTL8139.Step sender) (hlen : message.length.toNat ≤ 999)
    (hsend : sendMsg sender mac payload message = .ok (n, s'))
    (harrive : ∀ i, i < n → host.reBuffer.byte (4 + i) = s'.trBuffer.byte i)
    (hstatus : status &&& CHECK_ROK ≠ 0) (hforMe : isForMe hostMac host.received)
    (hroom : (host.messages host.nexToWrite).macDest 0 = 0)
    (hlater : later.Next ((rtlHandler host hostMac status).2.messages host.nexToWrite)) :
    later.Delivers mac message ↔ message.length.toNat ≤ 254 := by
  obtain ⟨s₁, hs₁, hsent⟩ := @sendMsg_spec sender mac payload message (by unfold PAYLOAD_SIZE; omega)
  rw [hsend] at hs₁
  obtain ⟨rfl, rfl⟩ := Prod.mk.inj (Except.ok.inj hs₁)
  rw [rtlHandler_frame hstatus hroom hforMe] at hlater
  exact (hsent.carries (trBuffer_lengthHigh hsender) hlen harrive).delivers_iff hlen hlater

/-! ### The first broadcast -/

/-- A broadcast from one machine to another, both just started. -/
theorem exists_broadcast {message : EthMsg} (hlen : message.length.toNat ≤ 999)
    (hdest : ∀ i, i < MAC_SIZE → message.mac.byte i = BROADCAST) :
    ∃ (n : Nat) (s' host : RTL8139),
      sendMsg .static (fun _ => 0) (fun _ => 0) message = .ok (n, s') ∧
      (∀ i, i < n → host.reBuffer.byte (4 + i) = s'.trBuffer.byte i) ∧
      isForMe (fun _ => 0) host.received ∧ (host.messages host.nexToWrite).macDest 0 = 0 ∧
      host.nextToRead = host.nexToWrite := by
  -- The sender's transmit buffer is all zero at first, so that the unsent byte is zero as well.
  obtain ⟨s', hsend, hsent⟩ := @sendMsg_spec .static (fun _ => 0) (fun _ => 0) message
    (by unfold PAYLOAD_SIZE; omega)
  have hreceived := RTL8139.received_arrive .static (fun i => s'.trBuffer.byte i)
  have harrive : ∀ i, i < ETH_FRAME_SIZE →
      (RTL8139.static.arrive fun i => s'.trBuffer.byte i).reBuffer.byte (4 + i)
        = s'.trBuffer.byte i := by
    intro i hi
    rw [← RTL8139.byte_received _ hi, hreceived]
    exact dif_pos hi
  refine ⟨_, s', RTL8139.static.arrive fun i => s'.trBuffer.byte i, hsend, ?_, ?_, ?_, rfl⟩
  · intro i hi
    exact harrive i (by unfold ETH_FRAME_SIZE; omega)
  -- All six bytes of the destination are the broadcast byte, as the sender wrote them.
  · rw [hreceived]
    unfold isForMe
    rw [Bool.or_eq_true]
    right
    refine decide_eq_true fun i => ?_
    have hi : (i : Nat) < ETH_FRAME_SIZE := Nat.lt_of_lt_of_le i.isLt (by decide)
    calc RawFrame.macDest (fun i => s'.trBuffer.byte i) i
        = s'.trBuffer.byte i := dif_pos hi
      _ = message.mac.byte i := hsent.macDest i i.isLt
      _ = BROADCAST := hdest i i.isLt
  · show Bytes.byte (fun _ : Fin ETH_FRAME_SIZE => 0) 0 = 0
    exact dif_pos (by decide)

/-- Of 300 bytes only 44 arrive. -/
theorem long_message_is_cut :
    ¬ ∀ {s' host later : RTL8139} {message : EthMsg} {n : Nat}, message.length.toNat ≤ 999 →
      sendMsg .static (fun _ => 0) (fun _ => 0) message = .ok (n, s') →
      (∀ i, i < n → host.reBuffer.byte (4 + i) = s'.trBuffer.byte i) →
      isForMe (fun _ => 0) host.received → (host.messages host.nexToWrite).macDest 0 = 0 →
      later.Next ((rtlHandler host (fun _ => 0) CHECK_ROK).2.messages host.nexToWrite) →
      later.Delivers (fun _ => 0) message := by
  intro hclaim
  have hlen : (300 : UInt16).toNat ≤ 999 := by decide
  obtain ⟨n, s', host, hsend, harrive, hforMe, hroom, hempty⟩ :=
    @exists_broadcast ⟨fun _ => BROADCAST, fun _ => 97, 300, 0⟩ hlen fun i hi => dif_pos hi
  have hrok : CHECK_ROK &&& CHECK_ROK ≠ 0 := by decide
  have hnext := rtlHandler_next hrok hroom hforMe hempty
  have hframe := rtlHandler_frame hrok hroom hforMe
  have hdelivers := hclaim hlen hsend harrive hforMe hroom (by rwa [hframe])
  obtain ⟨s₁, hs₁, hsent⟩ := sendMsg_spec (sendMsg_isOk.mp ⟨_, hsend⟩)
  rw [hsend] at hs₁
  obtain ⟨rfl, rfl⟩ := Prod.mk.inj (Except.ok.inj hs₁)
  have hcarries := hsent.carries (dif_pos (by decide)) hlen harrive
  exact absurd ((hcarries.delivers_iff hlen hnext).mp hdelivers) (by decide)

theorem message_survives_hello : ∃ (message : EthMsg) (later : RTL8139),
    message.length = 5 ∧ later.Delivers (fun _ => 0) message := by
  have hlen : (5 : UInt16).toNat ≤ 999 := by decide
  obtain ⟨n, s', host, hsend, harrive, hforMe, hroom, hempty⟩ :=
    @exists_broadcast ⟨fun _ => BROADCAST, fun _ => 97, 5, 0⟩ hlen fun i hi => dif_pos hi
  have hrok : CHECK_ROK &&& CHECK_ROK ≠ 0 := by decide
  have hnext := rtlHandler_next hrok hroom hforMe hempty
  have hframe := rtlHandler_frame hrok hroom hforMe
  exact ⟨_, _, rfl, (message_survives (.start rfl) hlen hsend harrive hrok hforMe hroom
    (by rwa [hframe])).mpr (by decide)⟩

end BasicKernel
