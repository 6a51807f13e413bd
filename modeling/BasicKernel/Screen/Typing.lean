import BasicKernel.Screen.KeyBoardDriver
import BasicKernel.Screen.ScreenList
import BasicKernel.Pipes.Fifo
import BasicKernel.Scheduling.Stacks

set_option autoImplicit false

/-! # Typed characters

The buffer of the keyboard is a ring whose free cells are 0. What is typed is read in the order of
typing, and a character is lost only while the buffer is full.

`keyboard_fifo` says so for every run of keys, reads and other events of the kernel, and that
reads and interrupts come to an end. The ring is an instance of `RingBuffer`.
-/

namespace BasicKernel

open Linked Fuel Transition RingBuffer

/-! ## The buffer

The unread characters lie from the read index to the write index, and all other cells are 0. A
full buffer has no free cell. -/

namespace KeyBoard

/-- The characters that were typed and not read. -/
def unread (b : KeyBoard) : List UInt8 := contents 0 BUFFER_SIZE b.buffer b.current

/-- The character that a key stands for, if it stands for one. -/
def typed (b : KeyBoard) (ready : Bool) (key : UInt8) : List UInt8 :=
  if ready = false ∨ key ≥ 128 then []
  else
    let character :=
      if (checkUppercase b key).uppercase = -1 then uKeyboard key else lKeyboard key
    if character = 0 then [] else [character]

/-- The ring of the buffer holds `xs`. -/
def Has (b : KeyBoard) (xs : List UInt8) : Prop := Holds 0 BUFFER_SIZE b.buffer b.current b.last xs

variable {b b' : KeyBoard} {xs : List UInt8} {c : UInt8}

theorem Has.unread_eq (h : b.Has xs) : b.unread = xs := h.contents_eq

theorem has_static : KeyBoard.static.Has [] := Holds.empty (by decide) fun _ _ => rfl

/-- Two keyboards with the same ring. -/
structure SameRing (b b' : KeyBoard) : Prop where
  buffer : b'.buffer = b.buffer
  current : b'.current = b.current
  last : b'.last = b.last

theorem Has.congr (h : b.Has xs) (hsame : b.SameRing b') : b'.Has xs := by
  unfold Has
  rw [hsame.buffer, hsame.current, hsame.last]
  exact h

theorem wrap_eq {i : Nat} (hi : i < BUFFER_SIZE) :
    (if i + 1 ≥ BUFFER_SIZE then 0 else i + 1) = (i + 1) % BUFFER_SIZE := by
  replace hi : i < 100 := hi
  show (if i + 1 ≥ 100 then 0 else i + 1) = (i + 1) % 100
  split <;> omega

theorem Has.push (h : b.Has xs) (hc : c ≠ 0) (hroom : xs.length < BUFFER_SIZE)
    (hbuffer : b'.buffer = Function.update b.buffer b.last c) (hcurrent : b'.current = b.current)
    (hlast : b'.last = if b.last + 1 ≥ BUFFER_SIZE then 0 else b.last + 1) : b'.Has (xs ++ [c]) := by
  unfold Has
  rw [hbuffer, hcurrent, hlast, wrap_eq h.write_lt]
  exact Holds.push h hc hroom

theorem getKey_nil (h : b.Has []) : getKey b = (0, b) := if_pos (h.read_free_iff.mpr rfl)

theorem getKey_cons (h : b.Has (c :: xs)) : (getKey b).1 = c ∧ (getKey b).2.Has xs := by
  have hne : b.buffer b.current ≠ 0 := fun hfree => absurd (h.read_free_iff.mp hfree) (List.cons_ne_nil _ _)
  unfold getKey
  rw [if_neg hne]
  refine ⟨h.read_eq, ?_⟩
  have hpop := Holds.pop h
  rw [← wrap_eq h.read_lt] at hpop
  unfold Has
  dsimp only
  split
  case isTrue hwrap =>
    rw [if_pos hwrap] at hpop
    exact hpop
  case isFalse hwrap =>
    rw [if_neg hwrap] at hpop
    exact hpop

end KeyBoard

/-! ## The interrupt

Of all that the handler does only one store touches the ring. -/

variable {t t' : Terminal} {fuel : Nat} {key : UInt8} {xs : List UInt8}

theorem KeyBoard.sameRing_checkUppercase (b : KeyBoard) (key : UInt8) :
    b.SameRing (checkUppercase b key) := by
  unfold checkUppercase
  split
  · exact ⟨rfl, rfl, rfl⟩
  split
  · exact ⟨rfl, rfl, rfl⟩
  split
  · exact ⟨rfl, rfl, rfl⟩
  · exact ⟨rfl, rfl, rfl⟩

/-- The alt keys. -/
def KeyBoard.setAlt (b : KeyBoard) (key : UInt8) : KeyBoard :=
  if key = L_ALT_PRESSED ∨ key = R_ALT_PRESSED then { b with altKey := 1 }
  else if key = L_ALT_RELEASED ∨ key = R_ALT_RELEASED then { b with altKey := 0 }
  else b

theorem checkSwapScreen_eq (fuel : Nat) (t : Terminal) (key : UInt8) :
    checkSwapScreen fuel t key =
      (if (t.keyboard.setAlt key).altKey ≠ 0 ∧ key = L_ARROW_PRESSED then
        loadPreviousScreen fuel t.machine else .ok t.machine) >>= fun machine =>
      (if (t.keyboard.setAlt key).altKey ≠ 0 ∧ key = R_ARROW_PRESSED then
        loadNextScreen fuel machine else .ok machine) >>= fun machine =>
      .ok ⟨machine, t.keyboard.setAlt key⟩ := by
  -- The two tests of the alternate key set its flag and nothing else.
  have hkeyboard : (if key = L_ALT_PRESSED ∨ key = R_ALT_PRESSED then
        { t with keyboard := { t.keyboard with altKey := 1 } }
      else if key = L_ALT_RELEASED ∨ key = R_ALT_RELEASED then
        { t with keyboard := { t.keyboard with altKey := 0 } }
      else t) = ⟨t.machine, t.keyboard.setAlt key⟩ := by
    unfold KeyBoard.setAlt
    split
    · rfl
    split
    · rfl
    · rfl
  unfold checkSwapScreen
  dsimp only
  rw [hkeyboard]
  dsimp only
  -- Both arrows need the flag, and no scan code is both.
  split
  · split
    · rfl
    · rfl
  · split
    · rfl
    · rfl

theorem KeyBoard.setAlt_same (b : KeyBoard) (key : UInt8) :
    b.SameRing (b.setAlt key) ∧ (b.setAlt key).uppercase = b.uppercase := by
  unfold setAlt
  split
  · exact ⟨⟨rfl, rfl, rfl⟩, rfl⟩
  split
  · exact ⟨⟨rfl, rfl, rfl⟩, rfl⟩
  · exact ⟨⟨rfl, rfl, rfl⟩, rfl⟩

/-- The keys that switch screens do not touch the ring or the case. -/
theorem checkSwapScreen_keyboard (hrun : checkSwapScreen fuel t key = .ok t') :
    t.keyboard.SameRing t'.keyboard ∧ t'.keyboard.uppercase = t.keyboard.uppercase := by
  rw [checkSwapScreen_eq] at hrun
  obtain ⟨machine₁, -, hrun⟩ := bind_eq_ok.mp hrun
  obtain ⟨machine₂, -, hrun⟩ := bind_eq_ok.mp hrun
  obtain rfl := Except.ok.inj hrun
  exact t.keyboard.setAlt_same key

/-- What an interrupt adds: the character of the key, while there is room. -/
theorem KeyBoard.Has.keyBoardHandler (h : t.keyboard.Has xs) {ready : Bool}
    (hrun : keyBoardHandler fuel t ready key = .ok t') :
    t'.keyboard.Has (if xs.length < BUFFER_SIZE then xs ++ t.keyboard.typed ready key else xs) := by
  -- Where nothing is stored the buffer holds what it held.
  have hnothing : ∀ b : KeyBoard, b.Has xs → t.keyboard.typed ready key = [] →
      b.Has (if xs.length < BUFFER_SIZE then xs ++ t.keyboard.typed ready key else xs) := by
    intro b hb htyped
    rw [htyped, List.append_nil, ite_self]
    exact hb
  unfold BasicKernel.keyBoardHandler at hrun
  cases hready : ready with
  | false =>
      rw [hready] at hrun
      obtain rfl := Except.ok.inj hrun
      subst hready
      exact hnothing _ h (if_pos (.inl rfl))
  | true =>
      subst hready
      -- The checks before the store do not touch the ring.
      obtain ⟨t₁, hswap, hrun⟩ := bind_eq_ok.mp hrun
      obtain ⟨hring, hcase⟩ := checkSwapScreen_keyboard hswap
      have h₁ := (h.congr (t.keyboard.sameRing_checkUppercase key)).congr hring
      by_cases hkey : key ≥ 128
      · rw [if_pos hkey] at hrun
        obtain rfl := Except.ok.inj hrun
        exact hnothing _ h₁ (if_pos (.inr hkey))
      rw [if_neg hkey] at hrun
      dsimp only at hrun
      have htyped : t.keyboard.typed true key =
          (if (if t₁.keyboard.uppercase = -1 then uKeyboard key else lKeyboard key) = 0 then []
            else [if t₁.keyboard.uppercase = -1 then uKeyboard key else lKeyboard key]) := by
        unfold KeyBoard.typed
        rw [if_neg (by simp [hkey]), hcase]
      generalize hchar : (if t₁.keyboard.uppercase = -1 then uKeyboard key else lKeyboard key) = c
        at hrun htyped
      by_cases haccepted : t₁.keyboard.buffer t₁.keyboard.last = 0 ∧ c ≠ 0
      -- A free cell is room in the ring, and the character goes into it.
      · obtain ⟨hfree, hc⟩ := haccepted
        have hroom : xs.length < BUFFER_SIZE := h₁.write_free_iff.mp hfree
        rw [if_pos ⟨hfree, hc⟩] at hrun
        obtain ⟨kernel, -, hrun⟩ := bind_eq_ok.mp hrun
        obtain rfl := Except.ok.inj hrun
        rw [if_pos hroom, htyped, if_neg hc]
        refine h₁.push hc hroom ?_ ?_ ?_ <;> dsimp only <;> split <;> rfl
      · rw [if_neg haccepted] at hrun
        obtain rfl := Except.ok.inj hrun
        -- Nothing is stored because the key has no character or because the ring is full.
        by_cases hroom : xs.length < BUFFER_SIZE
        · have hzero : c = 0 := by
            by_contra hc
            exact haccepted ⟨h₁.write_free_iff.mpr hroom, hc⟩
          exact hnothing _ h₁ (htyped.trans (if_pos hzero))
        · rw [if_neg hroom]
          exact h₁

/-! ## The thread that waits

A call of `blockThread` looks up the process and the thread and stores the new state. The state
can be looked up again behind it. -/

/-- The searches for processes and threads find the same in both kernels. -/
structure Kernel.SameSearch (k k' : Kernel) : Prop where
  schedulerNode : k'.schedulerNode = k.schedulerNode
  processQueue : k'.processQueue = k.processQueue
  threadLibrary : k'.threadLibrary = k.threadLibrary
  pid : ∀ p, (k'.process p).pid = (k.process p).pid
  library : ∀ p, (k'.process p).threadLibrary = (k.process p).threadLibrary
  pthread : ∀ p, (k'.thread p).pthread = (k.thread p).pthread

namespace Kernel.SameSearch

variable {k k' k₁ : Kernel} {p : Addr}

theorem refl (k : Kernel) : k.SameSearch k := ⟨rfl, rfl, rfl, fun _ => rfl, fun _ => rfl, fun _ => rfl⟩

theorem trans (h : k.SameSearch k₁) (h' : k₁.SameSearch k') : k.SameSearch k' :=
  ⟨h'.schedulerNode.trans h.schedulerNode, h'.processQueue.trans h.processQueue,
    h'.threadLibrary.trans h.threadLibrary, fun p => (h'.pid p).trans (h.pid p),
    fun p => (h'.library p).trans (h.library p), fun p => (h'.pthread p).trans (h.pthread p)⟩

theorem modifyThread {s : ThreadState}
    (h : k.modifyThread p (fun t => { t with state := s }) = .ok k') : k.SameSearch k' := by
  by_cases hp : p = NULL
  · rw [hp, Kernel.modifyThread_null] at h
    cases h
  · rw [Kernel.modifyThread_of_ne hp] at h
    obtain rfl := Except.ok.inj h
    refine ⟨rfl, rfl, rfl, fun _ => rfl, fun _ => rfl, fun q => ?_⟩
    dsimp only
    by_cases hq : q = p
    · rw [hq, Function.update_self]
    · rw [Function.update_of_ne hq]

theorem modifyProcess {f : ProcessNode → ProcessNode} (h : k.modifyProcess p f = .ok k')
    (hpid : ∀ n, (f n).pid = n.pid) (hlibrary : ∀ n, (f n).threadLibrary = n.threadLibrary) :
    k.SameSearch k' := by
  by_cases hp : p = NULL
  · rw [hp, Kernel.modifyProcess_null] at h
    cases h
  · rw [Kernel.modifyProcess_of_ne hp] at h
    obtain rfl := Except.ok.inj h
    refine ⟨rfl, rfl, rfl, fun q => ?_, fun q => ?_, fun _ => rfl⟩ <;> dsimp only
    · by_cases hq : q = p
      · rw [hq, Function.update_self, hpid]
      · rw [Function.update_of_ne hq]
    · by_cases hq : q = p
      · rw [hq, Function.update_self, hlibrary]
      · rw [Function.update_of_ne hq]

/-- A field of a node that is the same in two stores. -/
theorem load_map {α β : Type} {store store' : Addr → α} {f : α → β} (h : ∀ p, f (store' p) = f (store p))
    (p : Addr) : (load store' p >>= fun n => .ok (f n) : Except Stop β) =
      load store p >>= fun n => .ok (f n) := by
  by_cases hp : p = NULL
  · rw [hp, load_null, load_null]
  · rw [load_of_ne hp, load_of_ne hp, ok_bind, ok_bind, h]

theorem pidAt (h : k.SameSearch k') (aux : Addr) : k'.pidAt aux = k.pidAt aux := by
  unfold Kernel.pidAt
  rw [h.schedulerNode]
  congr 1
  funext n
  exact load_map h.pid n.process

theorem pthreadAt (h : k.SameSearch k') (aux : Addr) : k'.pthreadAt aux = k.pthreadAt aux := by
  unfold Kernel.pthreadAt
  rw [h.threadLibrary]
  congr 1
  funext n
  exact load_map h.pthread n.thread

theorem getProcessWithPid (h : k.SameSearch k') (fuel : Nat) (pid : Int) :
    BasicKernel.getProcessWithPid fuel k' pid = BasicKernel.getProcessWithPid fuel k pid := by
  have hpidAt : k'.pidAt = k.pidAt := funext h.pidAt
  unfold BasicKernel.getProcessWithPid
  rw [hpidAt, h.schedulerNode, h.processQueue]

theorem getThreadWithPthread (h : k.SameSearch k') (fuel : Nat) (pthread : Int) (process : Addr) :
    BasicKernel.getThreadWithPthread fuel k' pthread process =
      BasicKernel.getThreadWithPthread fuel k pthread process := by
  have hpthreadAt : k'.pthreadAt = k.pthreadAt := funext h.pthreadAt
  unfold BasicKernel.getThreadWithPthread
  rw [hpthreadAt, h.threadLibrary]
  by_cases hp : process = NULL
  · rw [hp, load_null, load_null]
  · rw [load_of_ne hp, load_of_ne hp, ok_bind, ok_bind, h.library]

end Kernel.SameSearch

/-- A call of `blockThread` that returns has blocked the thread. -/
theorem blockThread_threadIs {k k' : Kernel} {pid pthread : Int} {ty : ThreadState}
    (h : blockThread fuel k pid pthread ty = .ok k') : k'.ThreadIs (pid, pthread) ty := by
  obtain ⟨process, hprocess, h⟩ := bind_eq_ok.mp h
  obtain ⟨thread, hthread, h⟩ := bind_eq_ok.mp h
  obtain ⟨k₁, hstate, h⟩ := bind_eq_ok.mp h
  obtain ⟨k₂, htick, h⟩ := bind_eq_ok.mp h
  obtain ⟨blocked, -, h⟩ := bind_eq_ok.mp h
  -- None of the stores changes what the two searches go along.
  have hsame₁ := Kernel.SameSearch.modifyThread hstate
  have hsame₂ := Kernel.SameSearch.modifyProcess htick (fun _ => rfl) fun _ => rfl
  obtain ⟨hthread_ne, hstate₁⟩ := Kernel.modifyThread_inv hstate
  have hprocess_ne : process ≠ NULL := by
    rintro rfl
    rw [Kernel.modifyProcess_null] at htick
    cases htick
  -- The state of the process is not in the thread.
  have hkept : ∀ {k k' : Kernel} {p : Addr} {f : ProcessNode → ProcessNode},
      k.modifyProcess p f = .ok k' → k'.thread = k.thread := by
    intro k k' p f h
    obtain ⟨store, -, h⟩ := bind_eq_ok.mp h
    obtain rfl := Except.ok.inj h
    rfl
  have hend : k₂.SameSearch k' ∧ k'.thread = k₂.thread := by
    cases blocked with
    | false =>
        obtain rfl := Except.ok.inj h
        exact ⟨.refl _, rfl⟩
    | true =>
        obtain ⟨process', -, h⟩ := bind_eq_ok.mp h
        obtain ⟨k₃, hblock, h⟩ := bind_eq_ok.mp h
        obtain rfl := Except.ok.inj h
        have hsame₃ := Kernel.SameSearch.modifyProcess hblock (fun _ => rfl) fun _ => rfl
        have hthread₃ : k₃.thread = k₂.thread := hkept hblock
        exact ⟨⟨hsame₃.schedulerNode, hsame₃.processQueue, hsame₃.threadLibrary, hsame₃.pid,
          hsame₃.library, hsame₃.pthread⟩, hthread₃⟩
  have hsame := (hsame₁.trans hsame₂).trans hend.1
  -- So the thread is found again, in the state that was stored first.
  refine ⟨fuel, ?_⟩
  unfold Kernel.threadState
  rw [hsame.getProcessWithPid, hprocess, ok_bind, if_neg hprocess_ne, hsame.getThreadWithPthread,
    hthread, ok_bind, if_neg hthread_ne, hend.2, hkept htick, hstate₁]
  rfl

/-! ## Reading

A read takes characters until it has as many as it was asked for, or the buffer is empty. -/

variable {buf : Addr} {xs : List UInt8}

/-- The loop of `read` takes what there is, `n` characters at most, and stores it at `buf + i`. -/
theorem KeyBoard.Has.readKeys (hbuf : buf ≠ NULL) (n : Nat) : ∀ {t : Terminal} {xs : List UInt8}
    {i : Nat}, t.keyboard.Has xs →
    ∃ t', readKeys buf n t i = .ok (i + min n xs.length, t') ∧ t'.keyboard.Has (xs.drop n) ∧
      (∃ char, t'.machine = { t.machine with kernel := { t.machine.kernel with char } }) ∧
      t'.machine.kernel.bytes (buf + i) (min n xs.length) = xs.take n ∧
      ∀ a : Nat, a < buf + i → t'.machine.kernel.char a = t.machine.kernel.char a := by
  -- By induction on the number of characters asked for.
  induction n with
  | zero =>
      intro t xs i h
      refine ⟨t, ?_, h, ⟨_, rfl⟩, ?_, fun _ _ => rfl⟩
      · rw [Nat.zero_min, Nat.add_zero]
        rfl
      · rw [Nat.zero_min]
        rfl
  | succ n ih =>
      intro t xs i h
      have hne : buf + i ≠ NULL := fun heq => hbuf (Nat.eq_zero_of_add_eq_zero_right heq)
      unfold BasicKernel.readKeys
      cases xs with
      -- The ring is empty: the terminator is stored, and the loop ends.
      | nil =>
          rw [KeyBoard.getKey_nil h]
          dsimp only
          rw [Kernel.setChar_of_ne hne, ok_bind, if_pos rfl]
          refine ⟨_, rfl, h, ⟨_, rfl⟩, rfl, fun a ha => ?_⟩
          exact Function.update_of_ne (Nat.ne_of_lt ha) _ _
      -- The oldest character is taken and stored at its place.
      | cons c xs =>
          obtain ⟨hchar, hrest⟩ := KeyBoard.getKey_cons h
          have hc : c ≠ 0 := fun hzero => h.ne_free (hzero ▸ List.mem_cons_self)
          generalize getKey t.keyboard = r at hchar hrest
          obtain ⟨character, keyboard⟩ := r
          dsimp only at hchar hrest ⊢
          subst hchar
          rw [Kernel.setChar_of_ne hne, ok_bind, if_neg hc]
          obtain ⟨t', hrun, hhas, ⟨char, hmachine⟩, hbytes, hframe⟩ := ih (i := i + 1) (t := ⟨{ t.machine with
            kernel := { t.machine.kernel with
              char := Function.update t.machine.kernel.char (buf + i) character } }, keyboard⟩) hrest
          refine ⟨t', ?_, hhas, ⟨char, hmachine⟩, ?_, fun a ha => ?_⟩
          · rw [hrun, List.length_cons, Nat.add_min_add_right, Nat.add_assoc, Nat.add_comm 1]
          · rw [List.length_cons, Nat.add_min_add_right, Kernel.bytes_succ, List.take_succ_cons]
            congr 1
            -- The later iterations store behind it.
            · rw [hframe (buf + i) (Nat.lt_succ_self (buf + i))]
              exact Function.update_self ..
          · rw [hframe a (Nat.lt_succ_of_lt ha)]
            exact Function.update_of_ne (Nat.ne_of_lt ha) _ _

/-- The first character is stored, whether there is one or not. -/
theorem KeyBoard.Has.readKeys_inv {n r : Nat} (h : t.keyboard.Has xs)
    (hrun : BasicKernel.readKeys buf n t 0 = .ok (r, t')) :
    r = min n xs.length ∧ t'.keyboard.Has (xs.drop r) ∧
      (∃ char, t'.machine = { t.machine with kernel := { t.machine.kernel with char } }) ∧
      t'.machine.kernel.bytes buf r = xs.take r := by
  cases n with
  | zero =>
      obtain ⟨rfl, rfl⟩ := Prod.mk.inj (Except.ok.inj hrun)
      exact ⟨(Nat.zero_min _).symm, h, ⟨_, rfl⟩, rfl⟩
  | succ n =>
      have hbuf : buf ≠ NULL := by
        rintro rfl
        obtain ⟨kernel, hset, -⟩ := bind_eq_ok.mp hrun
        obtain ⟨char, hmodify, -⟩ := bind_eq_ok.mp hset
        cases hmodify
      obtain ⟨t₁, hrun₁, hhas, hmachine, hbytes, -⟩ := h.readKeys hbuf (n + 1) (i := 0)
      rw [hrun] at hrun₁
      obtain ⟨rfl, rfl⟩ := Prod.mk.inj (Except.ok.inj hrun₁)
      rw [Nat.zero_add]
      refine ⟨rfl, ?_, hmachine, ?_⟩
      · rwa [← List.drop_eq_drop_min]
      · rw [← List.take_eq_take_min]
        exact hbytes

theorem read_onFocus {pid : Int} (hcur : getCurrentPid t.machine.kernel = .ok pid)
    (hon : t.machine.onFocusPid = pid) (fuel : Nat) (buf : Addr) (n : Nat) :
    read fuel t buf n = readKeys buf n t 0 >>= fun r =>
      if r.1 = 0 then blockReader fuel r.2.machine >>= fun machine =>
        .ok (0, ⟨machine, r.2.keyboard⟩)
      else .ok r := by
  unfold read blockIfNotOnFocus isCurrentProcessOnFocus
  rw [hcur, ok_bind, hon]
  simp only [pure_eq_ok, ok_bind, decide_true, Bool.not_true, Bool.false_eq_true, if_false]

theorem read_offFocus {pid : Int} (hcur : getCurrentPid t.machine.kernel = .ok pid)
    (hoff : t.machine.onFocusPid ≠ pid) (fuel : Nat) (buf : Addr) (n : Nat) :
    read fuel t buf n = blockReader fuel t.machine >>= fun machine => .ok (0, ⟨machine, t.keyboard⟩) := by
  unfold read blockIfNotOnFocus isCurrentProcessOnFocus
  rw [hcur, ok_bind]
  simp only [pure_eq_ok, ok_bind, decide_eq_false hoff, Bool.not_false, if_true, bind_assoc]

/-- A reader that waits: it gets nothing, and its thread is blocked. -/
def Terminal.Waits (t t' : Terminal) : Prop :=
  ∃ τ, t.machine.kernel.Current τ ∧ t'.machine.kernel.ThreadIs τ ThreadState.T_BLOCKED_IO

theorem blockReader_waits {m m' : Machine} (hrun : blockReader fuel m = .ok m') :
    ∃ τ, m.kernel.Current τ ∧ m'.kernel.ThreadIs τ ThreadState.T_BLOCKED_IO := by
  obtain ⟨pid, hpid, hrun⟩ := bind_eq_ok.mp hrun
  obtain ⟨pthread, hpthread, hrun⟩ := bind_eq_ok.mp hrun
  obtain ⟨kernel, hblock, hrun⟩ := bind_eq_ok.mp hrun
  obtain rfl := Except.ok.inj hrun
  exact ⟨(pid, pthread), ⟨hpid, hpthread⟩, blockThread_threadIs hblock⟩

/-- What a call of `read` that returned has done. -/
structure Terminal.Reads (t : Terminal) (buf : Addr) (n r : Nat) (t' : Terminal) (pid : Int)
    (xs : List UInt8) : Prop where
  keyboard : t'.keyboard.Has (xs.drop r)
  bytes : t'.machine.kernel.bytes buf r = xs.take r
  onFocus : t.machine.onFocusPid = pid → r = min n xs.length
  waits : t.machine.onFocusPid ≠ pid ∨ r = 0 → r = 0 ∧ t.Waits t'

theorem KeyBoard.Has.read {n r : Nat} (h : t.keyboard.Has xs) (hrun : read fuel t buf n = .ok (r, t')) :
    ∃ pid, getCurrentPid t.machine.kernel = .ok pid ∧ t.Reads buf n r t' pid xs := by
  obtain ⟨pid, hcur⟩ : ∃ pid, getCurrentPid t.machine.kernel = .ok pid := by
    obtain ⟨_, hblock, -⟩ := bind_eq_ok.mp hrun
    obtain ⟨_, hfocus, -⟩ := bind_eq_ok.mp hblock
    obtain ⟨pid, hcur, -⟩ := bind_eq_ok.mp hfocus
    exact ⟨pid, hcur⟩
  refine ⟨pid, hcur, ?_⟩
  -- On focus the loop runs first, and off focus the caller is blocked at once.
  by_cases hon : t.machine.onFocusPid = pid
  · rw [read_onFocus hcur hon] at hrun
    obtain ⟨⟨r₁, t₁⟩, hkeys, hrun⟩ := bind_eq_ok.mp hrun
    obtain ⟨rfl, hhas, ⟨char, hmachine⟩, hbytes⟩ := h.readKeys_inv hkeys
    -- With nothing read the caller is blocked, and it is still the current thread.
    by_cases hzero : min n xs.length = 0
    · rw [if_pos hzero] at hrun
      obtain ⟨machine, hblock, hrun⟩ := bind_eq_ok.mp hrun
      obtain ⟨rfl, rfl⟩ := Prod.mk.inj (Except.ok.inj hrun)
      obtain ⟨τ, hτ, hwaits⟩ := blockReader_waits hblock
      have hcur' : t.machine.kernel.Current τ := by
        dsimp only at hτ
        rw [hmachine] at hτ
        exact hτ
      rw [hzero] at hhas
      exact ⟨hhas, rfl, fun _ => hzero.symm, fun _ => ⟨rfl, τ, hcur', hwaits⟩⟩
    · rw [if_neg hzero] at hrun
      obtain ⟨rfl, rfl⟩ := Prod.mk.inj (Except.ok.inj hrun)
      exact ⟨hhas, hbytes, fun _ => rfl, fun hor => (hor.elim (absurd hon) hzero).elim⟩
  · rw [read_offFocus hcur hon] at hrun
    obtain ⟨machine, hblock, hrun⟩ := bind_eq_ok.mp hrun
    obtain ⟨rfl, rfl⟩ := Prod.mk.inj (Except.ok.inj hrun)
    exact ⟨h, rfl, fun heq => absurd heq hon, fun _ => ⟨rfl, blockReader_waits hblock⟩⟩

/-! ## Calls end

The loop of a read has a count, and an interrupt searches lists and rings that end. -/

section Ends

variable {V : View} {τ : ThreadId} {m : Machine}

theorem blockReader_returns (hr : Rep m.kernel V) (hok : V.Ok) (hτ : m.kernel.Current τ) :
    ∃ m', Returns (blockReader · m) m' := by
  obtain ⟨c, hc, thread, hthread, -, -, rfl⟩ := (hr.current_iff hok).mp hτ
  obtain ⟨k', hblock, -⟩ := hr.blockThread hok hc hthread ThreadState.T_BLOCKED_IO
  refine ⟨{ m with kernel := k' }, ?_⟩
  unfold blockReader
  simp only [hτ.1, hτ.2, ok_bind]
  exact hblock.bind (.const _ _)

theorem KeyBoard.Has.read_returns (h : t.keyboard.Has xs) (hr : Rep t.machine.kernel V) (hok : V.Ok)
    (hτ : t.machine.kernel.Current τ) (hbuf : buf ≠ NULL) (n : Nat) :
    ∃ r, Returns (BasicKernel.read · t buf n) r := by
  by_cases hon : t.machine.onFocusPid = τ.1
  · simp only [read_onFocus hτ.1 hon]
    obtain ⟨t₁, hkeys, -, ⟨char, hmachine⟩, -⟩ := h.readKeys hbuf n (i := 0)
    simp only [hkeys, ok_bind]
    by_cases hzero : 0 + min n xs.length = 0
    · have hr₁ : Rep t₁.machine.kernel V := by
        rw [hmachine]
        exact hr.unseen rfl hr.owns
      have hτ₁ : t₁.machine.kernel.Current τ := by
        rw [hmachine]
        exact hτ
      obtain ⟨m', hblock⟩ := blockReader_returns hr₁ hok hτ₁
      simp only [if_pos hzero]
      exact ⟨_, hblock.bind (.const _ _)⟩
    · simp only [if_neg hzero]
      exact ⟨_, .const _ _⟩
  · simp only [read_offFocus hτ.1 hon]
    obtain ⟨m', hblock⟩ := blockReader_returns hr hok hτ
    exact ⟨_, hblock.bind (.const _ _)⟩

theorem checkSwapScreen_returns (hs : t.machine.ScreensOk) (key : UInt8) :
    ∃ t', Returns (checkSwapScreen · t key) t' ∧
      (key ≠ L_ARROW_PRESSED → key ≠ R_ARROW_PRESSED → t'.machine = t.machine) := by
  simp only [checkSwapScreen_eq]
  by_cases hleft : (t.keyboard.setAlt key).altKey ≠ 0 ∧ key = L_ARROW_PRESSED
  · obtain ⟨m', hprevious⟩ := hs.previous
    have hright : ¬ ((t.keyboard.setAlt key).altKey ≠ 0 ∧ key = R_ARROW_PRESSED) := by
      rintro ⟨-, hkey⟩
      exact absurd (hleft.2.symm.trans hkey) (by decide)
    simp only [if_pos hleft, if_neg hright, ok_bind]
    exact ⟨_, hprevious.bind (.const _ _), fun hne => absurd hleft.2 hne⟩
  · simp only [if_neg hleft, ok_bind]
    by_cases hright : (t.keyboard.setAlt key).altKey ≠ 0 ∧ key = R_ARROW_PRESSED
    · obtain ⟨m', hnext⟩ := hs.next
      simp only [if_pos hright]
      exact ⟨_, hnext.bind (.const _ _), fun _ hne => absurd hright.2 hne⟩
    · simp only [if_neg hright, ok_bind]
      exact ⟨_, .const _ _, fun _ _ => rfl⟩

/-- The arrows stand for no character. -/
theorem arrow_silent {key : UInt8} (hkey : key = L_ARROW_PRESSED ∨ key = R_ARROW_PRESSED) :
    lKeyboard key = 0 ∧ uKeyboard key = 0 := by
  rcases hkey with rfl | rfl
  · decide
  · decide

/-- An interrupt ends if the process on focus exists. -/
theorem keyBoardHandler_returns {p : ProcessView} (hr : Rep t.machine.kernel V) (hok : V.Ok)
    (hs : t.machine.ScreensOk) (hp : p ∈ V.table) (hpid : t.machine.onFocusPid = p.val.pid)
    (ready : Bool) (key : UInt8) : ∃ t', Returns (BasicKernel.keyBoardHandler · t ready key) t' := by
  unfold BasicKernel.keyBoardHandler
  cases ready with
  | false => exact ⟨t, .const _ _⟩
  | true =>
      -- The switch of screens comes first; what follows needs the process on focus only.
      obtain ⟨t₁, hswap, hsame⟩ := checkSwapScreen_returns
        (t := { t with keyboard := checkUppercase t.keyboard key }) hs key
      suffices h : ∃ t', Returns (fun fuel =>
          if key ≥ 128 then .ok t₁
          else
            if t₁.keyboard.buffer t₁.keyboard.last = 0 ∧
                (if t₁.keyboard.uppercase = -1 then uKeyboard key else lKeyboard key) ≠ 0 then do
              let b := { t₁.keyboard with
                buffer := Function.update t₁.keyboard.buffer t₁.keyboard.last
                  (if t₁.keyboard.uppercase = -1 then uKeyboard key else lKeyboard key)
                last := t₁.keyboard.last + 1 }
              let kernel ← unblockAllThreads fuel t₁.machine.kernel t₁.machine.onFocusPid ThreadState.T_BLOCKED_IO
              return ⟨{ t₁.machine with kernel },
                if b.last ≥ BUFFER_SIZE then { b with last := 0 } else b⟩
            else .ok t₁) t' by
        obtain ⟨t', h⟩ := h
        exact ⟨t', hswap.bind h⟩
      by_cases hkey : key ≥ 128
      · simp only [if_pos hkey]
        exact ⟨t₁, .const _ _⟩
      simp only [if_neg hkey]
      by_cases haccepted : t₁.keyboard.buffer t₁.keyboard.last = 0 ∧
          (if t₁.keyboard.uppercase = -1 then uKeyboard key else lKeyboard key) ≠ 0
      -- A key with a character is no arrow, so the focus has not moved.
      · have hmachine : t₁.machine = t.machine := by
          have hsilent : ¬ (key = L_ARROW_PRESSED ∨ key = R_ARROW_PRESSED) := by
            intro harrow
            obtain ⟨hl, hu⟩ := arrow_silent harrow
            rw [hl, hu, ite_self] at haccepted
            exact haccepted.2 rfl
          rw [not_or] at hsilent
          exact hsame hsilent.1 hsilent.2
        simp only [if_pos haccepted]
        obtain ⟨k', hunblock, -⟩ := hr.unblockAllThreads hok hp ThreadState.T_BLOCKED_IO
        rw [← hpid] at hunblock
        simp only [hmachine]
        exact ⟨_, hunblock.bind (.const _ _)⟩
      · simp only [if_neg haccepted]
        exact ⟨t₁, .const _ _⟩

end Ends

/-! ## Runs -/

/-- The terminal, what was accepted of the typed characters, and what the reads have returned. -/
structure TypingLog where
  terminal : Terminal
  accepted : List UInt8
  returned : List UInt8

/-- A typed character is accepted while less than `BUFFER_SIZE` characters are unread. -/
inductive TypingStep : TypingLog → TypingLog → Prop
  | interrupt {t t' : Terminal} {fuel : Nat} {ready : Bool} {key : UInt8}
      {accepted returned : List UInt8} : keyBoardHandler fuel t ready key = .ok t' →
      TypingStep ⟨t, accepted, returned⟩
        ⟨t', accepted ++
          if t.keyboard.unread.length < BUFFER_SIZE then t.keyboard.typed ready key else [], returned⟩
  | read {t t' : Terminal} {fuel n r : Nat} {buf : Addr} {accepted returned : List UInt8} :
      read fuel t buf n = .ok (r, t') →
      TypingStep ⟨t, accepted, returned⟩ ⟨t', accepted, returned ++ t'.machine.kernel.bytes buf r⟩
  | elsewhere {t : Terminal} {machine : Machine} {accepted returned : List UInt8} :
      TypingStep ⟨t, accepted, returned⟩ ⟨⟨machine, t.keyboard⟩, accepted, returned⟩

def TypingLog.AtStart (s : TypingLog) : Prop :=
  s.terminal.keyboard = .static ∧ s.accepted = [] ∧ s.returned = []

/-- What holds at every moment. The last two fields say that calls end: reads of the current thread,
and interrupts while the process on focus exists. -/
structure TypingLog.Fifo (s : TypingLog) : Prop where
  conserved : s.returned ++ s.terminal.keyboard.unread = s.accepted
  types : ∀ {fuel : Nat} {ready : Bool} {key : UInt8} {t' : Terminal},
    keyBoardHandler fuel s.terminal ready key = .ok t' →
    t'.keyboard.unread =
      if s.terminal.keyboard.unread.length < BUFFER_SIZE then
        s.terminal.keyboard.unread ++ s.terminal.keyboard.typed ready key
      else s.terminal.keyboard.unread
  reads : ∀ {fuel n r : Nat} {buf : Addr} {t' : Terminal},
    read fuel s.terminal buf n = .ok (r, t') →
    ∃ pid, getCurrentPid s.terminal.machine.kernel = .ok pid ∧
      t'.machine.kernel.bytes buf r = s.terminal.keyboard.unread.take r ∧
      t'.keyboard.unread = s.terminal.keyboard.unread.drop r ∧
      (s.terminal.machine.onFocusPid = pid → r = min n s.terminal.keyboard.unread.length) ∧
      (s.terminal.machine.onFocusPid ≠ pid ∨ r = 0 → r = 0 ∧ s.terminal.Waits t')
  readEnds : ∀ {V : View} {τ : ThreadId} {buf : Addr}, Rep s.terminal.machine.kernel V → V.Ok →
    s.terminal.machine.kernel.Current τ → buf ≠ NULL → ∀ n, ∃ r,
      Returns (BasicKernel.read · s.terminal buf n) r
  interruptEnds : ∀ {V : View} {p : ProcessView}, Rep s.terminal.machine.kernel V → V.Ok →
    s.terminal.machine.ScreensOk → p ∈ V.table → s.terminal.machine.onFocusPid = p.val.pid →
    ∀ ready key, ∃ t', Returns (keyBoardHandler · s.terminal ready key) t'

/-- The invariant of the runs. -/
def TypingLog.Kept (s : TypingLog) : Prop :=
  ∃ xs, s.terminal.keyboard.Has xs ∧ s.returned ++ xs = s.accepted

theorem TypingLog.AtStart.kept {s : TypingLog} (h : s.AtStart) : s.Kept := by
  obtain ⟨hkeyboard, haccepted, hreturned⟩ := h
  refine ⟨[], ?_, ?_⟩
  · rw [hkeyboard]
    exact KeyBoard.has_static
  · rw [haccepted, hreturned]
    rfl

theorem TypingLog.Kept.step {s s' : TypingLog} (h : s.Kept) (hstep : TypingStep s s') : s'.Kept := by
  obtain ⟨xs, hhas, hlog⟩ := h
  cases hstep with
  | interrupt hrun =>
      refine ⟨_, hhas.keyBoardHandler hrun, ?_⟩
      dsimp only at hhas hlog ⊢
      rw [hhas.unread_eq, ← hlog]
      split
      · rw [List.append_assoc]
      · rw [List.append_nil]
  | @read t t' _ _ r buf _ _ hrun =>
      obtain ⟨pid, -, hreads⟩ := hhas.read hrun
      refine ⟨_, hreads.keyboard, ?_⟩
      dsimp only at hlog ⊢
      rw [hreads.bytes, List.append_assoc, List.take_append_drop, hlog]
  | elsewhere => exact ⟨xs, hhas, hlog⟩

theorem TypingLog.Kept.fifo {s : TypingLog} (h : s.Kept) : s.Fifo := by
  obtain ⟨xs, hhas, hlog⟩ := h
  refine ⟨?_, fun hrun => ?_, fun hrun => ?_, fun hr hok hτ hbuf n => hhas.read_returns hr hok hτ hbuf n,
    fun hr hok hs hp hpid ready key => keyBoardHandler_returns hr hok hs hp hpid ready key⟩
  · rw [hhas.unread_eq, hlog]
  · rw [hhas.unread_eq]
    exact (hhas.keyBoardHandler hrun).unread_eq
  · obtain ⟨pid, hcur, hreads⟩ := hhas.read hrun
    rw [hhas.unread_eq]
    exact ⟨pid, hcur, hreads.bytes, hreads.keyboard.unread_eq, hreads.onFocus, hreads.waits⟩

/-- What is typed is read once and in order, whatever else happens in between. -/
theorem keyboard_fifo {s : TypingLog} (h : Reachable TypingLog.AtStart TypingStep s) : s.Fifo :=
  (h.invariant (I := TypingLog.Kept) (fun _ hs => hs.kept) fun _ _ _ hkept hstep =>
    hkept.step hstep).fifo

/-! ### Typing and reading one after the other -/

inductive TypingEvent where
  | key (key : UInt8)
  | read (buf : Addr) (n : Nat)
  | yield

namespace TypingLog

/-- The event, with what it adds to the log. -/
def after (fuel : Nat) (s : TypingLog) : TypingEvent → Except Stop TypingLog
  | .key key => do
      let t ← keyBoardHandler fuel s.terminal true key
      let accepted := s.accepted ++ if s.terminal.keyboard.unread.length < BUFFER_SIZE then
        s.terminal.keyboard.typed true key else []
      return { s with terminal := t, accepted }
  | .read buf n => do
      let (r, t) ← BasicKernel.read fuel s.terminal buf n
      return { s with terminal := t, returned := s.returned ++ t.machine.kernel.bytes buf r }
  | .yield => do
      let kernel ← (KernelOp.yield nullGarbage 0x5000).run fuel s.terminal.machine.kernel
      return { s with terminal := ⟨{ s.terminal.machine with kernel }, s.terminal.keyboard⟩ }

theorem step_of_after {s s' : TypingLog} {fuel : Nat} {e : TypingEvent} (h : s.after fuel e = .ok s') :
    TypingStep s s' := by
  cases e with
  | key _ =>
      obtain ⟨t, hrun, h⟩ := bind_eq_ok.mp h
      obtain rfl := Except.ok.inj h
      exact .interrupt hrun
  | read _ _ =>
      obtain ⟨⟨r, t⟩, hrun, h⟩ := bind_eq_ok.mp h
      obtain rfl := Except.ok.inj h
      exact .read hrun
  | yield =>
      obtain ⟨kernel, -, h⟩ := bind_eq_ok.mp h
      obtain rfl := Except.ok.inj h
      exact .elsewhere

theorem reachable_foldlM {es : List TypingEvent} {fuel : Nat} {s s' : TypingLog}
    (h : Reachable AtStart TypingStep s) (hrun : es.foldlM (after fuel) s = .ok s') :
    Reachable AtStart TypingStep s' := by
  induction es generalizing s with
  | nil =>
      obtain rfl := Except.ok.inj hrun
      exact h
  | cons e es ih =>
      rw [List.foldlM_cons] at hrun
      obtain ⟨s₁, he, hrun⟩ := bind_eq_ok.mp hrun
      exact ih (h.next (step_of_after he)) hrun

end TypingLog

/-- The shell is on focus and `init` runs. `hi` is typed, `init` asks for it and is blocked, the shell reads
one letter, and `j` is typed. -/
def typeAndRead : Except Stop TypingLog := do
  let (_, machine) ← loadScreen 40 { startMachine with kernel := ← startKernel } 1
  [.key 0x23, .key 0x17, .read 0x20000000 5, .yield, .read 0x20000000 1, .key 0x24].foldlM
    (TypingLog.after 40) ⟨⟨machine, .static⟩, [], []⟩

theorem keyboard_fifo_hi : ∃ s, Reachable TypingLog.AtStart TypingStep s ∧
    s.accepted = [104, 105, 106] ∧ s.returned = [104] ∧ s.terminal.keyboard.unread = [105, 106] ∧
      s.Fifo := by
  have hrun : (do
      let s ← typeAndRead
      return decide (s.accepted = [104, 105, 106] ∧ s.returned = [104] ∧
        s.terminal.keyboard.unread = [105, 106]) : Except Stop Bool) = .ok true := by
    decide +kernel
  obtain ⟨s, hs, hrun⟩ := bind_eq_ok.mp hrun
  obtain ⟨haccepted, hreturned, hunread⟩ := of_decide_eq_true (Except.ok.inj hrun)
  obtain ⟨kernel, -, hs⟩ := bind_eq_ok.mp hs
  obtain ⟨⟨r, machine⟩, -, hs⟩ := bind_eq_ok.mp hs
  have hreach : Reachable TypingLog.AtStart TypingStep s :=
    TypingLog.reachable_foldlM (.start ⟨rfl, rfl, rfl⟩) hs
  exact ⟨s, hreach, haccepted, hreturned, hunread, keyboard_fifo hreach⟩

end BasicKernel
