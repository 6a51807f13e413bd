import BasicKernel.Network.RTL8139

set_option autoImplicit false

/-! # The bounds of the copies

A copy ends without an error exactly if all its bytes lie inside the two arrays. Both directions
of the network have a copy whose length is one off the size of an array: a received message whose
field `length` is 0 has the length 65535, and a message of the full size does not fit behind the
type byte of the payload.

`copies_in_bounds` has the exact lengths for both directions. `empty_frame_overruns` is a frame
that arrives with the length 0 and is read far outside.
-/

namespace BasicKernel

/-! ## Copies

The loop goes up byte by byte, so it fails at the first byte outside and not before. -/

section Copies

variable {m n : Nat}

theorem Bytes.get_of_lt {a : Bytes n} {i : Nat} (h : i < n) : a.get i = .ok (a.byte i) := by
  unfold Bytes.get Bytes.byte
  rw [dif_pos h, dif_pos h]

theorem Bytes.set_of_lt {a : Bytes n} {i : Nat} (h : i < n) (c : UInt8) :
    ∃ b : Bytes n, a.set i c = .ok b ∧ ∀ j, b.byte j = if j = i then c else a.byte j := by
  refine ⟨Function.update a ⟨i, h⟩ c, dif_pos h, fun j => ?_⟩
  unfold Bytes.byte
  by_cases hj : j = i
  · subst hj
    rw [dif_pos h, if_pos rfl, Function.update_self]
  · rw [if_neg hj]
    by_cases hlt : j < n
    · rw [dif_pos hlt, dif_pos hlt, Function.update_of_ne]
      exact fun heq => hj (congrArg Fin.val heq)
    · rw [dif_neg hlt, dif_neg hlt]

/-- A copy inside the two arrays. -/
theorem copyBytes_inside {src : Bytes n} {len d s : Nat} {dest : Bytes m} (hs : s + len ≤ n)
    (hd : d + len ≤ m) :
    ∃ b : Bytes m, copyBytes src len dest d s = .ok b ∧
      ∀ j, b.byte j = if d ≤ j ∧ j < d + len then src.byte (s + (j - d)) else dest.byte j := by
  induction len generalizing dest d s with
  | zero =>
      refine ⟨dest, rfl, fun j => ?_⟩
      rw [if_neg]
      omega
  | succ len ih =>
      obtain ⟨dest₁, hset, hdest₁⟩ := dest.set_of_lt (show d < m by omega) (src.byte s)
      obtain ⟨b, hb, hbyte⟩ := ih (show s + 1 + len ≤ n by omega) (show d + 1 + len ≤ m by omega)
      refine ⟨b, ?_, fun j => ?_⟩
      · unfold copyBytes
        rw [Bytes.get_of_lt (by omega), ok_bind, hset, ok_bind]
        exact hb
      · rw [hbyte, hdest₁]
        by_cases hj : j = d
        · subst hj
          rw [if_neg (by omega), if_pos rfl, if_pos (by omega), Nat.sub_self, Nat.add_zero]
        · by_cases hin : d + 1 ≤ j ∧ j < d + 1 + len
          · rw [if_pos hin, if_pos (by omega)]
            congr 1
            omega
          · rw [if_neg hin, if_neg hj, if_neg (by omega)]

/-- A copy that leaves one of the arrays fails. -/
theorem copyBytes_outside {src : Bytes n} {len d s : Nat} {dest : Bytes m} (hlen : 0 < len)
    (hout : n < s + len ∨ m < d + len) : copyBytes src len dest d s = .error .outOfBounds := by
  induction len generalizing dest d s with
  | zero => exact absurd hlen (Nat.lt_irrefl 0)
  | succ len ih =>
      unfold copyBytes
      by_cases hs : s < n
      · rw [Bytes.get_of_lt hs, ok_bind]
        by_cases hd : d < m
        · obtain ⟨dest₁, hset, -⟩ := dest.set_of_lt hd (src.byte s)
          rw [hset, ok_bind]
          exact ih (by omega) (by omega)
        · rw [Bytes.set, dif_neg hd]
          rfl
      · rw [Bytes.get, dif_neg hs]
        rfl

/-- A copy ends exactly if it stays inside both arrays. -/
theorem mymemcpy_isOk {src : Bytes n} {len d s : Nat} {dest : Bytes m} (hlen : 0 < len) :
    (∃ b, mymemcpy dest d src s len = .ok b) ↔ s + len ≤ n ∧ d + len ≤ m := by
  unfold mymemcpy
  constructor
  · rintro ⟨b, hb⟩
    by_contra hout
    rw [copyBytes_outside hlen (by omega)] at hb
    cases hb
  · rintro ⟨hs, hd⟩
    obtain ⟨b, hb, -⟩ := @copyBytes_inside _ _ src _ _ _ dest hs hd
    exact ⟨b, hb⟩

end Copies

/-! ## Sending

The type byte comes first in the payload and the message behind it, with its length in the
frame. -/

/-- The transmit buffer after a message was sent from `s`. -/
structure Sent (s s' : RTL8139) (mac : Bytes MAC_SIZE) (message : EthMsg) : Prop where
  macDest : ∀ i, i < MAC_SIZE → s'.trBuffer.byte i = message.mac.byte i
  macSrc : ∀ i, i < MAC_SIZE → s'.trBuffer.byte (MAC_SIZE + i) = mac.byte i
  lengthLow : s'.trBuffer.byte 12 = (message.length + 1).toUInt8
  lengthHigh : s'.trBuffer.byte 13 = s.trBuffer.byte 13
  type : s'.trBuffer.byte 14 = message.type
  msg : ∀ i, i < message.length.toNat → s'.trBuffer.byte (15 + i) = message.msg.byte i

theorem UInt16.toNat_succ {x : UInt16} (h : x.toNat < 65535) : (x + 1).toNat = x.toNat + 1 := by
  rw [UInt16.toNat_add]
  exact Nat.mod_eq_of_lt (by have : (1 : UInt16).toNat = 1 := rfl; omega)

section Send

variable {s : RTL8139} {mac : Bytes MAC_SIZE} {payload : Bytes PAYLOAD_SIZE} {message : EthMsg}

theorem transmit_spec (frame : EthFrame) (hlen : frame.length.toNat ≤ PAYLOAD_SIZE) :
    ∃ b : Bytes TR_BUFFER_SIZE,
      transmit s frame = .ok (frame.length.toNat + 16, { s with trBuffer := b }) ∧
      (∀ i, i < MAC_SIZE → b.byte i = frame.macDest.byte i) ∧
      (∀ i, i < MAC_SIZE → b.byte (MAC_SIZE + i) = frame.macSrc.byte i) ∧
      b.byte 12 = frame.length.toUInt8 ∧ b.byte 13 = s.trBuffer.byte 13 ∧
      ∀ i, i < frame.length.toNat → b.byte (14 + i) = frame.payload.byte i := by
  unfold PAYLOAD_SIZE at hlen
  -- Two addresses, the low byte of the length, the payload and the low byte of the check, in this
  -- order.
  obtain ⟨b₁, h₁, hb₁⟩ := @copyBytes_inside _ _ frame.macDest MAC_SIZE 0 0 s.trBuffer (by decide)
    (by decide)
  obtain ⟨b₂, h₂, hb₂⟩ := @copyBytes_inside _ _ frame.macSrc MAC_SIZE MAC_SIZE 0 b₁ (by decide)
    (by decide)
  obtain ⟨b₃, h₃, hb₃⟩ := b₂.set_of_lt (show 12 < TR_BUFFER_SIZE by decide) frame.length.toUInt8
  obtain ⟨b₄, h₄, hb₄⟩ := @copyBytes_inside _ _ frame.payload frame.length.toNat 14 0 b₃
    (by unfold PAYLOAD_SIZE; omega) (by unfold TR_BUFFER_SIZE; omega)
  obtain ⟨b₅, h₅, hb₅⟩ := b₄.set_of_lt (show 14 + frame.length.toNat < TR_BUFFER_SIZE by
    unfold TR_BUFFER_SIZE; omega) frame.frameCheck.toUInt8
  -- The mask keeps the low twelve bits, more than a full frame has.
  have hsent : 14 + frame.length.toNat + 2 &&& CLEAR_OWN = frame.length.toNat + 16 := by
    rw [show CLEAR_OWN = 2 ^ 12 - 1 from rfl, Nat.and_two_pow_sub_one_eq_mod,
      Nat.mod_eq_of_lt (by omega)]
    omega
  refine ⟨b₅, ?_, ?_, ?_, ?_, ?_, ?_⟩
  · simp only [transmit, mymemcpy, h₁, ok_bind, Nat.zero_add, h₂, show MAC_SIZE + MAC_SIZE = 12 from rfl,
      h₃, Nat.reduceAdd, h₄, h₅, hsent, pure_eq_ok]
  -- Each byte is found by walking back over the later writes to the one that wrote it.
  · intro i hi
    unfold MAC_SIZE at hi
    rw [hb₅, if_neg (by omega), hb₄, if_neg (by omega), hb₃, if_neg (by omega), hb₂,
      if_neg (by unfold MAC_SIZE; omega), hb₁, if_pos (by unfold MAC_SIZE; omega)]
    congr 1
    omega
  · intro i hi
    unfold MAC_SIZE at hi ⊢
    rw [hb₅, if_neg (by omega), hb₄, if_neg (by omega), hb₃, if_neg (by omega), hb₂,
      if_pos (by unfold MAC_SIZE; omega)]
    congr 1
    unfold MAC_SIZE
    omega
  -- Byte 13, the high half of the length, is written by none of the five: it keeps its old value.
  · rw [hb₅, if_neg (by omega), hb₄, if_neg (by omega), hb₃, if_pos rfl]
  · rw [hb₅, if_neg (by omega), hb₄, if_neg (by omega), hb₃, if_neg (by omega), hb₂,
      if_neg (by unfold MAC_SIZE; omega), hb₁, if_neg (by unfold MAC_SIZE; omega)]
  · intro i hi
    rw [hb₅, if_neg (by omega), hb₄, if_pos (by omega)]
    congr 1
    omega

/-- A message that is shorter than the payload is sent. -/
theorem sendMsg_spec (hlen : message.length.toNat < PAYLOAD_SIZE) :
    ∃ s', sendMsg s mac payload message = .ok (message.length.toNat + 17, s') ∧
      Sent s s' mac message := by
  unfold PAYLOAD_SIZE at hlen
  obtain ⟨p₁, h₁, hp₁⟩ := payload.set_of_lt (show 0 < PAYLOAD_SIZE by decide) message.type
  obtain ⟨p₂, h₂, hp₂⟩ := @copyBytes_inside _ _ message.msg message.length.toNat 1 0 p₁
    (by unfold MSG_SIZE; omega) (by unfold PAYLOAD_SIZE; omega)
  have hnext : (message.length + 1).toNat = message.length.toNat + 1 :=
    UInt16.toNat_succ (by omega)
  obtain ⟨b, hb, hdest, hsrc, hlow, hhigh, hpayload⟩ := @transmit_spec s
    ⟨message.mac, mac, message.length + 1, p₂, message.type.toUInt32⟩
    (by rw [hnext]; exact hlen)
  rw [hnext] at hb hpayload
  refine ⟨{ s with trBuffer := b }, ?_, hdest, hsrc, hlow, hhigh, ?_, ?_⟩
  · simp only [sendMsg, mymemcpy, h₁, h₂, ok_bind]
    exact hb
  · have h := hpayload 0 (by omega)
    rw [hp₂, if_neg (by omega), hp₁, if_pos rfl] at h
    exact h
  · intro i hi
    have h := hpayload (1 + i) (by omega)
    rw [hp₂, if_pos (by omega)] at h
    rw [show 15 + i = 14 + (1 + i) by omega]
    exact h.trans (congrArg _ (by omega))

/-- A message is sent exactly if it fits behind the type byte. -/
theorem sendMsg_isOk :
    (∃ r, sendMsg s mac payload message = .ok r) ↔ message.length.toNat < PAYLOAD_SIZE := by
  constructor
  · rintro ⟨r, h⟩
    obtain ⟨p₁, -, h⟩ := bind_eq_ok.mp h
    obtain ⟨p₂, hcopy, -⟩ := bind_eq_ok.mp h
    unfold PAYLOAD_SIZE
    rcases Nat.eq_zero_or_pos message.length.toNat with hzero | hpos
    · omega
    · have hpayload := ((mymemcpy_isOk hpos).mp ⟨p₂, hcopy⟩).2
      unfold PAYLOAD_SIZE at hpayload
      omega
  · intro hlen
    obtain ⟨s', hs', -⟩ := @sendMsg_spec s mac payload message hlen
    exact ⟨_, hs'⟩

end Send

/-! ## Receiving

The length of a message is taken from the frame, where it counts the type byte as well. -/

/-- `frame` is the one that `getMsg` reads next. -/
def RTL8139.Next (s : RTL8139) (frame : RawFrame) : Prop :=
  s.nextToRead ≠ s.nexToWrite ∧ s.messages s.nextToRead = frame

/-- The message `m` was read from `frame`. -/
structure EthMsg.ReadFrom (m : EthMsg) (frame : RawFrame) : Prop where
  mac : ∀ i, i < MAC_SIZE → m.mac.byte i = Bytes.byte frame (MAC_SIZE + i)
  length : m.length = frame.length - 1
  type : m.type = Bytes.byte frame 14
  msg : ∀ i, i < m.length.toNat → m.msg.byte i = Bytes.byte frame (15 + i)

theorem UInt16.toNat_pred (x : UInt16) : (x - 1).toNat = (x.toNat + 65535) % 65536 := by
  rw [UInt16.toNat_sub, Nat.add_comm]
  rfl

section Receive

variable {s : RTL8139} {frame : RawFrame} {msg : EthMsg}

/-- A message whose length fits the caller's array is read. -/
theorem getMsg_spec (hnext : s.Next frame) (hlen : (frame.length - 1).toNat ≤ MSG_SIZE) :
    ∃ m, getMsg s msg = .ok ((frame.length - 1).toNat + MAC_SIZE + 2, m,
        { s with nextToRead := s.nextToRead + 1 }) ∧ m.ReadFrom frame := by
  obtain ⟨hne, rfl⟩ := hnext
  unfold MSG_SIZE at hlen
  obtain ⟨mac, hmac, hmacs⟩ := @copyBytes_inside _ _ (s.messages s.nextToRead) MAC_SIZE 0 MAC_SIZE
    msg.mac (by decide) (by decide)
  obtain ⟨text, htext, hbytes⟩ := @copyBytes_inside _ _ (s.messages s.nextToRead)
    ((s.messages s.nextToRead).length - 1).toNat 0 15 msg.msg (by unfold ETH_FRAME_SIZE; omega)
    (by unfold MSG_SIZE; omega)
  have htype : Bytes.get (s.messages s.nextToRead) 14
      = .ok (Bytes.byte (s.messages s.nextToRead) 14) := Bytes.get_of_lt (by decide)
  refine ⟨⟨mac, text, (s.messages s.nextToRead).length - 1,
    Bytes.byte (s.messages s.nextToRead) 14⟩, ?_, ?_⟩
  · simp only [getMsg, if_neg hne, mymemcpy, RawFrame.payload, hmac, htype, htext, ok_bind,
      Nat.reduceAdd, pure_eq_ok]
  · constructor
    · intro i hi
      rw [hmacs, if_pos ⟨Nat.zero_le i, by rwa [Nat.zero_add]⟩, Nat.sub_zero]
    · rfl
    · rfl
    · intro i hi
      rw [hbytes, if_pos ⟨Nat.zero_le i, by rwa [Nat.zero_add]⟩, Nat.sub_zero]

/-- A message is read exactly if its length is at most the size of the caller's array. -/
theorem getMsg_isOk (hnext : s.Next frame) :
    (∃ r, getMsg s msg = .ok r) ↔
      1 ≤ frame.length.toNat ∧ frame.length.toNat ≤ MSG_SIZE + 1 := by
  have hpred := UInt16.toNat_pred frame.length
  have hlt := frame.length.toNat_lt
  -- the length 0 wraps to 65535
  have hsize : (frame.length - 1).toNat ≤ MSG_SIZE ↔
      1 ≤ frame.length.toNat ∧ frame.length.toNat ≤ MSG_SIZE + 1 := by
    unfold MSG_SIZE
    omega
  rw [← hsize]
  constructor
  · rintro ⟨r, h⟩
    obtain ⟨hne, rfl⟩ := hnext
    rw [getMsg, if_neg hne] at h
    obtain ⟨mac, -, h⟩ := bind_eq_ok.mp h
    obtain ⟨type, -, h⟩ := bind_eq_ok.mp h
    obtain ⟨text, htext, -⟩ := bind_eq_ok.mp h
    rcases Nat.eq_zero_or_pos ((s.messages s.nextToRead).length - 1).toNat with hzero | hpos
    · rw [hzero]
      exact Nat.zero_le _
    · have hbound := ((mymemcpy_isOk hpos).mp ⟨text, htext⟩).2
      rwa [Nat.zero_add] at hbound
  · intro hlen
    obtain ⟨m, hm, -⟩ := @getMsg_spec s frame msg hnext hlen
    exact ⟨_, hm⟩

end Receive

/-! ## Both directions -/

/-- The copies of the driver stay inside their arrays exactly for these lengths: a frame that is
read has a length field from 1 to 1001, a message that is sent leaves room for the type byte. -/
theorem copies_in_bounds (s : RTL8139) :
    (∀ frame msg, s.Next frame → ((∃ r, getMsg s msg = .ok r) ↔
      1 ≤ frame.length.toNat ∧ frame.length.toNat ≤ MSG_SIZE + 1)) ∧
    ∀ mac payload message, message.length.toNat ≤ MSG_SIZE →
      ((∃ r, sendMsg s mac payload message = .ok r) ↔ message.length.toNat < PAYLOAD_SIZE) :=
  ⟨fun _ _ hnext => getMsg_isOk hnext, fun _ _ _ _ => sendMsg_isOk⟩

/-- The card has put a frame into the receive buffer, behind its header of four bytes. -/
def RTL8139.arrive (s : RTL8139) (frame : RawFrame) : RTL8139 :=
  { s with
    reBuffer := fun i =>
      if 4 ≤ i.val ∧ i.val < 4 + ETH_FRAME_SIZE then Bytes.byte frame (i - 4) else s.reBuffer i }

theorem RTL8139.received_arrive (s : RTL8139) (frame : RawFrame) :
    (s.arrive frame).received = frame := by
  funext i
  have hi := i.isLt
  unfold ETH_FRAME_SIZE at hi
  have hlt : 4 + i.val < RE_BUFFER_SIZE := by
    unfold RE_BUFFER_SIZE
    omega
  have hin : 4 ≤ 4 + i.val ∧ 4 + i.val < 4 + ETH_FRAME_SIZE :=
    ⟨Nat.le_add_right 4 _, Nat.add_lt_add_left i.isLt 4⟩
  calc (s.arrive frame).received i
      = (s.arrive frame).reBuffer ⟨4 + i, hlt⟩ := dif_pos hlt
    _ = Bytes.byte frame (4 + i - 4) := if_pos hin
    _ = Bytes.byte frame i := by rw [Nat.add_sub_cancel_left]
    _ = frame i := dif_pos i.isLt

/-- The interrupt that accepts a frame. -/
theorem rtlHandler_accepts {s : RTL8139} {mac : Bytes MAC_SIZE} {status : UInt16}
    (hstatus : status &&& CHECK_ROK ≠ 0) (hroom : (s.messages s.nexToWrite).macDest 0 = 0)
    (hforMe : isForMe mac s.received) :
    (rtlHandler s mac status).2 = { s with
      messages := Function.update s.messages s.nexToWrite s.received
      nexToWrite := s.nexToWrite + 1 } := by
  unfold rtlHandler
  rw [if_pos hstatus, if_pos ⟨hroom, hforMe⟩]

theorem rtlHandler_frame {s : RTL8139} {mac : Bytes MAC_SIZE} {status : UInt16}
    (hstatus : status &&& CHECK_ROK ≠ 0) (hroom : (s.messages s.nexToWrite).macDest 0 = 0)
    (hforMe : isForMe mac s.received) :
    (rtlHandler s mac status).2.messages s.nexToWrite = s.received := by
  rw [rtlHandler_accepts hstatus hroom hforMe]
  exact Function.update_self ..

/-- A frame that arrives at an empty ring is read next. -/
theorem rtlHandler_next {s : RTL8139} {mac : Bytes MAC_SIZE} {status : UInt16}
    (hstatus : status &&& CHECK_ROK ≠ 0) (hroom : (s.messages s.nexToWrite).macDest 0 = 0)
    (hforMe : isForMe mac s.received) (hempty : s.nextToRead = s.nexToWrite) :
    (rtlHandler s mac status).2.Next s.received := by
  rw [rtlHandler_accepts hstatus hroom hforMe]
  constructor
  · show s.nextToRead ≠ s.nexToWrite + 1
    rw [hempty]
    generalize s.nexToWrite = w
    revert w
    decide
  · show Function.update s.messages s.nexToWrite s.received s.nextToRead = s.received
    rw [hempty, Function.update_self]

/-- A broadcast frame of zeros. -/
def emptyFrame : RawFrame := fun i => if i.val < MAC_SIZE then BROADCAST else 0

/-- The field `length` of the first frame that arrives is 0, and the message that `getMsg` is asked
for has 65535 bytes. -/
theorem empty_frame_overruns :
    ¬ ∀ (frame : RawFrame) (mac : Bytes MAC_SIZE) (msg : EthMsg), isForMe mac frame →
      ∃ r, getMsg (rtlHandler (RTL8139.static.arrive frame) mac CHECK_ROK).2 msg = .ok r := by
  intro hclaim
  have hforMe : isForMe (fun _ => 0) emptyFrame := by decide
  obtain ⟨r, hr⟩ := hclaim emptyFrame (fun _ => 0) ⟨fun _ => 0, fun _ => 0, 0, 0⟩ hforMe
  have hreceived := RTL8139.received_arrive .static emptyFrame
  have hroom : (RTL8139.static.messages RTL8139.static.nexToWrite).macDest 0 = 0 := by
    simp [RTL8139.static, RawFrame.macDest, Bytes.byte]
  have hnext := @rtlHandler_next (RTL8139.static.arrive emptyFrame) (fun _ => 0) CHECK_ROK
    (by decide) hroom (by rw [hreceived]; exact hforMe) rfl
  rw [hreceived] at hnext
  have hlength := ((getMsg_isOk hnext).mp ⟨r, hr⟩).1
  exact absurd hlength (by decide)

theorem copies_in_bounds_hello :
    ∃ r, sendMsg .static (fun _ => 0) (fun _ => 0) ⟨fun _ => BROADCAST, fun _ => 104, 5, 0⟩ = .ok r :=
  ((copies_in_bounds .static).2 _ _ _ (by decide)).mpr (by decide)

end BasicKernel
