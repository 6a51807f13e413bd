import BasicKernel.Kernel.Boot
import BasicKernel.Kernel.Interruptions
import BasicKernel.Memory.Optimal
import BasicKernel.Network.RTL8139
import BasicKernel.Pipes.Fifo
import BasicKernel.Screen.KeyBoardDriver
import BasicKernel.Screen.Focus

set_option autoImplicit false

/-! # The system call interface: `systemCalls.c` on both sides

The kernel's `systemCall` gets a number and three parameters of 64 bits, and selects a function of the
kernel. The library functions of the user programs fill them in, and convert what comes back.

`systemCall_params` says that the two sides agree on every call, and `served` that a library
function which returned has carried out the kernel's function on its own arguments. `read` makes
as many calls as it needs.
-/

namespace BasicKernel

/-- The kernel with its screens, its keyboard and its network card. -/
structure Computer where
  terminal : Terminal
  card : RTL8139

/-- What a call takes from elsewhere: the variables `i` that `printAllProcess` and `printPsHeader` do not
initialise, the address of the card, and what the local `frame` of `sendMsg` holds. -/
structure Locals where
  i : Int
  headerI : Int
  mac : Bytes MAC_SIZE
  payload : Bytes PAYLOAD_SIZE

def STANDARD_IO_FD : Nat := 1

def ETHERNET_FD : Nat := 2

/-! ## `ethMsg` in memory

A message is passed by its address. Its fields are read from the bytes there, and written to
them. -/

/-- The bytes of the structure, without the padding at its end. -/
def ETH_MSG_SIZE : Nat := MAC_SIZE + MSG_SIZE + 3

def EthMsg.byte (msg : EthMsg) (i : Nat) : UInt8 :=
  if i < MAC_SIZE then Bytes.byte msg.mac i
  else if i < MAC_SIZE + MSG_SIZE then Bytes.byte msg.msg (i - MAC_SIZE)
  else if i = MAC_SIZE + MSG_SIZE then msg.length.toUInt8
  else if i = MAC_SIZE + MSG_SIZE + 1 then (msg.length >>> 8).toUInt8
  else msg.type

namespace Kernel

def ethMsg (k : Kernel) (p : Addr) : EthMsg where
  mac i := k.char (p + i)
  msg i := k.char (p + MAC_SIZE + i)
  length := (k.char (p + MAC_SIZE + MSG_SIZE)).toUInt16 +
    (k.char (p + MAC_SIZE + MSG_SIZE + 1)).toUInt16 * 256
  type := k.char (p + MAC_SIZE + MSG_SIZE + 2)

def setEthMsg (k : Kernel) (p : Addr) (msg : EthMsg) : Kernel :=
  { k with char := fun a => if p ≤ a ∧ a < p + ETH_MSG_SIZE then msg.byte (a - p) else k.char a }

end Kernel

/-! ## The kernel's side

One function selects by the number. All parameters have 64 bits, and each branch converts those
that it uses. -/

/-- The numbers of `systemCalls.h`. -/
inductive SysCall where
  | READ
  | WRITE
  | CLEAR_SCREEN
  | MEMORY_ASSIGN
  | MEMORY_FREE
  | PS
  | CREATE_PROCESS
  | END_PROCESS
  | CREATE_THREAD
  | END_THREAD
  | CREATE_MUTEX
  | END_MUTEX
  | UP_MUTEX
  | DOWN_MUTEX
  | CURRENT_PID
  | CREATE_PROCESS_BACKGROUND
  | CREATE_SEMAPHORE
  | END_SEMAPHORE
  | UP_SEMAPHORE
  | DOWN_SEMAPHORE
  | SEND
  | RECEIVE
  | CREATE_PIPE
  deriving DecidableEq

/-- The numbers from 1 on. -/
def SysCall.all : List SysCall :=
  [READ, WRITE, CLEAR_SCREEN, MEMORY_ASSIGN, MEMORY_FREE, PS, CREATE_PROCESS, END_PROCESS, CREATE_THREAD,
    END_THREAD, CREATE_MUTEX, END_MUTEX, UP_MUTEX, DOWN_MUTEX, CURRENT_PID, CREATE_PROCESS_BACKGROUND,
    CREATE_SEMAPHORE, END_SEMAPHORE, UP_SEMAPHORE, DOWN_SEMAPHORE, SEND, RECEIVE, CREATE_PIPE]

def SysCall.ofNumber : Nat → Option SysCall
  | 0 => none
  | n + 1 => SysCall.all[n]?

namespace Computer

variable (c : Computer)

abbrev machine : Machine := c.terminal.machine

abbrev kernel : Kernel := c.terminal.machine.kernel

def withMachine (machine : Machine) : Computer := { c with terminal := { c.terminal with machine } }

def withKernel (kernel : Kernel) : Computer := c.withMachine { c.machine with kernel }

def read (fuel : Nat) (fileDescriptor : Nat) (buf : Addr) (nBytes : Nat) :
    Except Stop (Nat × Computer) := do
  if fileDescriptor = STANDARD_IO_FD then
    let (readBytes, terminal) ← BasicKernel.read fuel c.terminal buf nBytes
    return (readBytes, { c with terminal })
  if fileDescriptor = ETHERNET_FD then
    let (n, msg, card) ← getMsg c.card (c.kernel.ethMsg buf)
    -- nothing is stored when no message has arrived
    if n = 0 then
      return (0, c)
    if buf = NULL then
      throw .nullDereference
    return (n, { c.withKernel (c.kernel.setEthMsg buf msg) with card })
  return (toUInt64 (-1), c)

def write (fuel : Nat) (g : Locals) (fileDescriptor : Nat) (buf : Addr) (nBytes : Nat) :
    Except Stop (Nat × Computer) := do
  if fileDescriptor = STANDARD_IO_FD then
    if nBytes ≠ 0 ∧ buf = NULL then
      throw .nullDereference
    let (i, machine) ← BasicKernel.write fuel c.machine (c.kernel.bytes buf nBytes)
    return (i, c.withMachine machine)
  if fileDescriptor = ETHERNET_FD then
    if buf = NULL then
      throw .nullDereference
    let (_, card) ← sendMsg c.card g.mac g.payload (c.kernel.ethMsg buf)
    return (nBytes, { c with card })
  return (toUInt64 (-1), c)

/-- The parameters are converted to the types of the functions that are called, the results to 64 bits. -/
def systemCall (fuel : Nat) (g : Locals) (systemCallNumber param1 param2 param3 : Nat) :
    Except Stop (Nat × Computer) := do
  -- the guards of the functions stay in these
  match SysCall.ofNumber systemCallNumber with
  | none => return (0, c)
  | some .READ => c.read fuel param1 param2 param3
  | some .WRITE => c.write fuel g param1 param2 param3
  | some .CLEAR_SCREEN => return (0, c.withMachine (clearScreenSys c.machine))
  | some .MEMORY_ASSIGN =>
      let (mem, k) ← pmalloc fuel c.kernel (toInt32 param1)
      return (mem, c.withKernel k)
  | some .MEMORY_FREE => return (1, c.withKernel (← pfree fuel c.kernel param1))
  | some .PS => return (1, c.withMachine (← ps fuel c.machine g.i g.headerI))
  | some .CREATE_PROCESS =>
      let (pid, machine) ← pcreate fuel c.machine param1 param2 param3
      return (toUInt64 pid, c.withMachine machine)
  | some .END_PROCESS => return (1, c.withMachine (← pkill fuel c.machine (toInt32 param1)))
  | some .CREATE_THREAD =>
      let (pthread, k) ← addThreadToProcess fuel c.kernel (toInt32 param1) param2 param3
      return (toUInt64 pthread, c.withKernel k)
  | some .END_THREAD =>
      return (1, c.withKernel (← removeThread fuel c.kernel (toInt32 param1) (toInt32 param2)))
  | some .CREATE_MUTEX =>
      let (id, k) ← createMutex fuel c.kernel
      return (toUInt64 id, c.withKernel k)
  | some .END_MUTEX => return (1, c.withKernel (← mutexDestroy fuel c.kernel (toInt32 param1)))
  | some .UP_MUTEX => return (1, c.withKernel (← mutexUp fuel c.kernel (toInt32 param1)))
  | some .DOWN_MUTEX => return (1, c.withKernel (← mutexDown fuel c.kernel (toInt32 param1)))
  | some .CURRENT_PID => return (toUInt64 (← getCurrentPid c.kernel), c)
  | some .CREATE_PROCESS_BACKGROUND =>
      let (pid, machine) ← pcreateBackground fuel c.machine param1 param2 param3
      return (toUInt64 pid, c.withMachine machine)
  | some .CREATE_SEMAPHORE =>
      let (id, k) ← createSemaphore fuel c.kernel (toInt32 param1)
      return (toUInt64 id, c.withKernel k)
  | some .END_SEMAPHORE => return (1, c.withKernel (← semaphoreDestroy fuel c.kernel (toInt32 param1)))
  | some .UP_SEMAPHORE => return (1, c.withKernel (← semaphoreUp fuel c.kernel (toInt32 param1)))
  | some .DOWN_SEMAPHORE => return (1, c.withKernel (← semaphoreDown fuel c.kernel (toInt32 param1)))
  | some .SEND => return (1, c.withKernel (← writeToPipe fuel c.kernel param1 param2))
  | some .RECEIVE => return (1, c.withKernel (← readFromPipe fuel c.kernel param1 param2))
  | some .CREATE_PIPE =>
      let (name, k) ← do_pipe fuel c.kernel (toInt32 param1) (toInt32 param2)
      return (name, c.withKernel k)

end Computer

/-! ## The user's side

For each library function the number and the parameters that it passes, and the function of the
kernel that it is meant to call. -/

/-- The library functions of the user programs that make a system call. -/
inductive Request where
  | read (fildes : Int) (buf : Addr) (nbytes : Nat)
  | write (fildes : Int) (buf : Addr) (nbytes : Nat)
  | clearScreen
  | malloc (bytes : Int)
  | free (memPosition : Addr)
  | ps
  | pcreate (exec entryPoint name : Addr)
  | pcreateBackground (exec entryPoint name : Addr)
  | pkill (pid : Int)
  | tcreate (pid : Int) (exec entryPoint : Addr)
  | tkill (pid pthread : Int)
  | createMutex
  | endMutex (id : Int)
  | mutexUp (id : Int)
  | mutexDown (id : Int)
  | getCurrentPid
  | createSemaphore (start : Int)
  | endSemaphore (id : Int)
  | semaphoreUp (id : Int)
  | semaphoreDown (id : Int)
  | createPipe (fromPid toPid : Int)
  | send (name buff : Addr)
  | receive (name buff : Addr)

namespace Request

/-- The number and the parameters that the library passes, converted to 64 bits. -/
def params : Request → Nat × Nat × Nat × Nat
  | read fildes buf nbytes => (1, toUInt64 fildes, buf, nbytes)
  | write fildes buf nbytes => (2, toUInt64 fildes, buf, nbytes)
  | clearScreen => (3, 0, 0, 0)
  | malloc bytes => (4, toUInt64 bytes, 0, 0)
  | free memPosition => (5, memPosition, 0, 0)
  | ps => (6, 1, 0, 0)
  | pcreate exec entryPoint name => (7, exec, entryPoint, name)
  | pkill pid => (8, toUInt64 pid, 0, 0)
  | tcreate pid exec entryPoint => (9, toUInt64 pid, exec, entryPoint)
  | tkill pid pthread => (10, toUInt64 pid, toUInt64 pthread, 0)
  | createMutex => (11, 0, 0, 0)
  | endMutex id => (12, toUInt64 id, 0, 0)
  | mutexUp id => (13, toUInt64 id, 0, 0)
  | mutexDown id => (14, toUInt64 id, 0, 0)
  | getCurrentPid => (15, 0, 0, 0)
  | pcreateBackground exec entryPoint name => (16, exec, entryPoint, name)
  | createSemaphore start => (17, toUInt64 start, 0, 0)
  | endSemaphore id => (18, toUInt64 id, 0, 0)
  | semaphoreUp id => (19, toUInt64 id, 0, 0)
  | semaphoreDown id => (20, toUInt64 id, 0, 0)
  | send name buff => (21, name, buff, 0)
  | receive name buff => (22, name, buff, 0)
  | createPipe fromPid toPid => (23, toUInt64 fromPid, toUInt64 toPid, 0)

/-- What the library makes of the `rax` that the system call leaves. Where the function has no result,
nobody reads this. -/
def value (rax : Nat) : Request → Int
  | malloc _ => rax
  | createPipe _ _ => rax
  | _ => toInt32 rax

/-- The functions that call `yield` behind the system call. -/
def yields : Request → Bool
  | read _ _ _ => true
  | pkill _ => true
  | tkill _ _ => true
  | mutexUp _ => true
  | mutexDown _ => true
  | semaphoreDown _ => true
  | receive _ _ => true
  | _ => false

/-- `value == 0`, the condition of the loop in `read`. The other functions have no loop. -/
def repeats (value : Int) : Request → Bool
  | read _ _ _ => value = 0
  | _ => false

/-- What is asked for: the function of the kernel, on the arguments themselves. -/
def serve (fuel : Nat) (g : Locals) (c : Computer) : Request → Except Stop (Int × Computer)
  | read fildes buf nbytes => do
      if fildes = 1 ∨ fildes = 2 then
        let (n, c) ← c.read fuel fildes.toNat buf nbytes
        return (n, c)
      return (-1, c)
  | write fildes buf nbytes => do
      if fildes = 1 ∨ fildes = 2 then
        let (n, c) ← c.write fuel g fildes.toNat buf nbytes
        return (n, c)
      return (-1, c)
  | clearScreen => .ok (0, c.withMachine (clearScreenSys c.machine))
  | malloc bytes => do
      let (mem, k) ← pmalloc fuel c.kernel bytes
      return (mem, c.withKernel k)
  | free memPosition => do return (1, c.withKernel (← pfree fuel c.kernel memPosition))
  | ps => do return (1, c.withMachine (← BasicKernel.ps fuel c.machine g.i g.headerI))
  | pcreate exec entryPoint name => do
      let (pid, machine) ← BasicKernel.pcreate fuel c.machine exec entryPoint name
      return (pid, c.withMachine machine)
  | pcreateBackground exec entryPoint name => do
      let (pid, machine) ← BasicKernel.pcreateBackground fuel c.machine exec entryPoint name
      return (pid, c.withMachine machine)
  | pkill pid => do return (1, c.withMachine (← BasicKernel.pkill fuel c.machine pid))
  | tcreate pid exec entryPoint => do
      let (pthread, k) ← addThreadToProcess fuel c.kernel pid exec entryPoint
      return (pthread, c.withKernel k)
  | tkill pid pthread => do return (1, c.withKernel (← removeThread fuel c.kernel pid pthread))
  | createMutex => do
      let (id, k) ← BasicKernel.createMutex fuel c.kernel
      return (id, c.withKernel k)
  | endMutex id => do return (1, c.withKernel (← mutexDestroy fuel c.kernel id))
  | mutexUp id => do return (1, c.withKernel (← BasicKernel.mutexUp fuel c.kernel id))
  | mutexDown id => do return (1, c.withKernel (← BasicKernel.mutexDown fuel c.kernel id))
  | getCurrentPid => do return (← BasicKernel.getCurrentPid c.kernel, c)
  | createSemaphore start => do
      let (id, k) ← BasicKernel.createSemaphore fuel c.kernel start
      return (id, c.withKernel k)
  | endSemaphore id => do return (1, c.withKernel (← semaphoreDestroy fuel c.kernel id))
  | semaphoreUp id => do return (1, c.withKernel (← BasicKernel.semaphoreUp fuel c.kernel id))
  | semaphoreDown id => do return (1, c.withKernel (← BasicKernel.semaphoreDown fuel c.kernel id))
  | createPipe fromPid toPid => do
      let (name, k) ← do_pipe fuel c.kernel fromPid toPid
      return (name, c.withKernel k)
  | send name buff => do return (1, c.withKernel (← writeToPipe fuel c.kernel name buff))
  | receive name buff => do return (1, c.withKernel (← readFromPipe fuel c.kernel name buff))

/-- The arguments are of their types. -/
def Fits : Request → Prop
  | read fildes buf nbytes => IsInt fildes ∧ buf < 2 ^ 64 ∧ nbytes < 2 ^ 32
  | write fildes buf nbytes => IsInt fildes ∧ buf < 2 ^ 64 ∧ nbytes < 2 ^ 32
  | malloc bytes => IsInt bytes
  | free memPosition => memPosition < 2 ^ 64
  | pcreate exec entryPoint name => exec < 2 ^ 64 ∧ entryPoint < 2 ^ 64 ∧ name < 2 ^ 64
  | pcreateBackground exec entryPoint name => exec < 2 ^ 64 ∧ entryPoint < 2 ^ 64 ∧ name < 2 ^ 64
  | pkill pid => IsInt pid
  | tcreate pid exec entryPoint => IsInt pid ∧ exec < 2 ^ 64 ∧ entryPoint < 2 ^ 64
  | tkill pid pthread => IsInt pid ∧ IsInt pthread
  | endMutex id => IsInt id
  | mutexUp id => IsInt id
  | mutexDown id => IsInt id
  | createSemaphore start => IsInt start
  | endSemaphore id => IsInt id
  | semaphoreUp id => IsInt id
  | semaphoreDown id => IsInt id
  | createPipe fromPid toPid => IsInt fromPid ∧ IsInt toPid
  | send name buff => name < 2 ^ 64 ∧ buff < 2 ^ 64
  | receive name buff => name < 2 ^ 64 ∧ buff < 2 ^ 64
  | _ => True

/-- The value is of the type of the result. -/
def Typed (v : Int) : Request → Prop
  | malloc _ => 0 ≤ v ∧ v < 2 ^ 64
  | createPipe _ _ => 0 ≤ v ∧ v < 2 ^ 64
  | _ => IsInt v

end Request

/-! ## What is converted and converted back

A value that fits the type of the argument comes through 64 bits unchanged, and so does a
result. -/

theorem toUInt64_lt (x : Int) : toUInt64 x < 2 ^ 64 := by
  unfold toUInt64
  omega

theorem IsInt.toInt32_toUInt64 {x : Int} (h : IsInt x) : toInt32 (toUInt64 x) = x := by
  obtain ⟨hlo, hhi⟩ := h
  have hmod : ((toUInt64 x : Nat) : Int) % 2 ^ 32 = x % 2 ^ 32 := by
    unfold toUInt64
    omega
  have hsame : toInt32 (toUInt64 x) = toInt32 x := by
    unfold toInt32
    rw [← Int.emod_bmod, ← Int.emod_bmod x]
    exact congrArg (Int.bmod · (2 ^ 32)) hmod
  rw [hsame, toInt32_of_bounds hlo hhi]

theorem IsInt.toUInt64_eq_iff {x : Int} (h : IsInt x) {n : Nat} (hn : n < 2 ^ 31) :
    toUInt64 x = n ↔ x = n := by
  obtain ⟨hlo, hhi⟩ := h
  unfold toUInt64
  omega

theorem toUInt64_natCast {n : Nat} (hn : n < 2 ^ 64) : toUInt64 n = n := by
  unfold toUInt64
  omega

namespace Request

variable {r : Request} {v : Int} {fuel : Nat} {g : Locals} {c c' : Computer} {e : Stop}

/-- The result comes back as it was. -/
theorem value_toUInt64 (h : r.Typed v) : r.value (toUInt64 v) = v := by
  cases r with
  | malloc bytes => exact toUInt64_of_bounds h.1 h.2
  | createPipe fromPid toPid => exact toUInt64_of_bounds h.1 h.2
  | _ => exact IsInt.toInt32_toUInt64 h

/-- The result in 64 bits. -/
def widen (a : Int × Computer) : Nat × Computer := (toUInt64 a.1, a.2)

section Results

variable {α : Type} {x : Except Stop α} {s : α → Computer}

/-- A result of the type `int`. -/
theorem int_result (x : Except Stop α) (f : α → Int) (s : α → Computer) :
    (x >>= fun a => .ok (toUInt64 (f a), s a)) = (x >>= fun a => .ok (f a, s a)).map widen := by
  cases x with
  | error e => rfl
  | ok a => rfl

/-- A pointer, a number of bytes or the constant 1. -/
theorem nat_result (f : α → Nat)
    (hv : ∀ v c', (x >>= fun a => .ok ((f a : Int), s a)) = .ok (v, c') → v < 2 ^ 64) :
    (x >>= fun a => .ok (f a, s a)) = (x >>= fun a => .ok ((f a : Int), s a)).map widen := by
  cases x with
  | error e => rfl
  | ok a =>
      have hlt : (f a : Int) < 2 ^ 64 := hv (f a) (s a) rfl
      show Except.ok (f a, s a) = .ok (toUInt64 (f a), s a)
      rw [toUInt64_natCast (Int.ofNat_lt.mp hlt)]

/-- A call without a result, with a parameter of the type `int`. -/
theorem int_param {id : Int} (h : IsInt id) (f : Int → Except Stop α) :
    (f (toInt32 (toUInt64 id)) >>= fun a => .ok (1, s a)) =
      (f id >>= fun a => .ok (1, s a)).map widen := by
  rw [h.toInt32_toUInt64]
  exact int_result (f id) (fun _ => 1) s

/-- A file descriptor is an `int` on the one side and has 64 bits on the other. -/
theorem descriptor_result {fildes : Int} (h : IsInt fildes) {f : Nat → Except Stop (Nat × Computer)}
    (hnone : ∀ n, n ≠ STANDARD_IO_FD → n ≠ ETHERNET_FD → f n = .ok (toUInt64 (-1), c))
    (hv : ∀ v c', (if fildes = 1 ∨ fildes = 2 then
      f fildes.toNat >>= fun a => .ok ((a.1 : Int), a.2) else .ok (-1, c)) = .ok (v, c') → v < 2 ^ 64) :
    f (toUInt64 fildes) = (if fildes = 1 ∨ fildes = 2 then
      f fildes.toNat >>= fun a => .ok ((a.1 : Int), a.2) else .ok (-1, c)).map widen := by
  have hone := h.toUInt64_eq_iff (n := 1) (by decide)
  have htwo := h.toUInt64_eq_iff (n := 2) (by decide)
  by_cases hfd : fildes = 1 ∨ fildes = 2
  · rw [if_pos hfd] at hv ⊢
    have hsame : toUInt64 fildes = fildes.toNat := by
      unfold toUInt64
      omega
    rw [hsame, ← nat_result Prod.fst hv]
    exact (bind_pure (f fildes.toNat)).symm
  · rw [if_neg hfd]
    rw [not_or] at hfd
    exact hnone _ (mt hone.mp hfd.1) (mt htwo.mp hfd.2)

end Results

/-- The results of the kernel's function are of their types. -/
def InRange (fuel : Nat) (g : Locals) (c : Computer) (r : Request) : Prop :=
  ∀ v c', r.serve fuel g c = .ok (v, c') → r.Typed v

theorem Typed.lt (h : r.Typed v) : v < 2 ^ 64 := by
  have hint : IsInt v → v < 2 ^ 64 := fun h => h.2.trans (by decide)
  cases r with
  | malloc bytes => exact h.2
  | createPipe fromPid toPid => exact h.2
  | _ => exact hint h

/-- The two sides agree on the numbers, on the order of the parameters and on their types. -/
theorem systemCall_params (hr : r.Fits) (htyped : r.InRange fuel g c) :
    c.systemCall fuel g r.params.1 r.params.2.1 r.params.2.2.1 r.params.2.2.2 =
      (r.serve fuel g c).map widen := by
  -- What is returned fits in 64 bits, as it is in the range of its C type.
  have hv : ∀ v c', r.serve fuel g c = .ok (v, c') → v < 2 ^ 64 := fun v c' h => (htyped v c' h).lt
  cases r with
  | read fildes buf nbytes =>
      -- Descriptors other than 1 and 2 get -1 on both sides.
      refine descriptor_result (f := (c.read fuel · buf nbytes)) hr.1 (fun n hone htwo => ?_) hv
      simp only [Computer.read, if_neg hone, if_neg htwo, pure_eq_ok]
  | write fildes buf nbytes =>
      refine descriptor_result (f := (c.write fuel g · buf nbytes)) hr.1 (fun n hone htwo => ?_) hv
      simp only [Computer.write, if_neg hone, if_neg htwo, pure_eq_ok]
  | clearScreen => rfl
  | malloc bytes =>
      -- A parameter of the type `int` survives the conversion to 64 bits and back.
      show (pmalloc fuel c.kernel (toInt32 (toUInt64 bytes)) >>= _) = _
      rw [IsInt.toInt32_toUInt64 hr]
      exact nat_result Prod.fst hv
  | free memPosition => exact int_result (pfree fuel c.kernel memPosition) (fun _ => 1) c.withKernel
  | ps => exact int_result (BasicKernel.ps fuel c.machine g.i g.headerI) (fun _ => 1) c.withMachine
  | pcreate exec entryPoint name => exact int_result _ Prod.fst fun a => c.withMachine a.2
  | pcreateBackground exec entryPoint name => exact int_result _ Prod.fst fun a => c.withMachine a.2
  | pkill pid => exact int_param hr (BasicKernel.pkill fuel c.machine)
  | tcreate pid exec entryPoint =>
      show (addThreadToProcess fuel c.kernel (toInt32 (toUInt64 pid)) exec entryPoint >>= _) = _
      rw [hr.1.toInt32_toUInt64]
      exact int_result _ Prod.fst fun a => c.withKernel a.2
  | tkill pid pthread =>
      show (removeThread fuel c.kernel (toInt32 (toUInt64 pid)) (toInt32 (toUInt64 pthread)) >>= _) = _
      rw [hr.1.toInt32_toUInt64, hr.2.toInt32_toUInt64]
      exact int_result (removeThread fuel c.kernel pid pthread) (fun _ => 1) c.withKernel
  | createMutex => exact int_result _ Prod.fst fun a => c.withKernel a.2
  | endMutex id => exact int_param hr (mutexDestroy fuel c.kernel)
  | mutexUp id => exact int_param hr (BasicKernel.mutexUp fuel c.kernel)
  | mutexDown id => exact int_param hr (BasicKernel.mutexDown fuel c.kernel)
  | getCurrentPid => exact int_result _ id fun _ => c
  | createSemaphore start =>
      show (BasicKernel.createSemaphore fuel c.kernel (toInt32 (toUInt64 start)) >>= _) = _
      rw [IsInt.toInt32_toUInt64 hr]
      exact int_result _ Prod.fst fun a => c.withKernel a.2
  | endSemaphore id => exact int_param hr (semaphoreDestroy fuel c.kernel)
  | semaphoreUp id => exact int_param hr (BasicKernel.semaphoreUp fuel c.kernel)
  | semaphoreDown id => exact int_param hr (BasicKernel.semaphoreDown fuel c.kernel)
  | createPipe fromPid toPid =>
      show (do_pipe fuel c.kernel (toInt32 (toUInt64 fromPid)) (toInt32 (toUInt64 toPid)) >>= _) = _
      rw [hr.1.toInt32_toUInt64, hr.2.toInt32_toUInt64]
      exact nat_result Prod.fst hv
  | send name buff => exact int_result (writeToPipe fuel c.kernel name buff) (fun _ => 1) c.withKernel
  | receive name buff => exact int_result (readFromPipe fuel c.kernel name buff) (fun _ => 1) c.withKernel

end Request

/-! ## The library functions

A library function makes its system call, and some yield behind it. `read` does both again until the
kernel has something for it. What happens while other threads run is a relation `others`. -/

namespace Request

/-- The parameters are in the registers that the library function was called with. -/
structure Passes (r : Request) (regs : Registers) : Prop where
  rdi : regs.rdi.toNat = r.params.1
  rsi : regs.rsi.toNat = r.params.2.1
  rdx : regs.rdx.toNat = r.params.2.2.1
  rcx : regs.rcx.toNat = r.params.2.2.2

/-- `rax` as `sysCallHandler` leaves it. -/
def rax (v : Int) : UInt64 := UInt64.ofNat (toUInt64 v)

theorem toNat_rax (v : Int) : (rax v).toNat = toUInt64 v :=
  UInt64.toNat_ofNat_of_lt (toUInt64_lt v)

/-- `systemCall` of `interruptions.asm`. The C code of the handler leaves the registers `regs` and the
memory `m`, in which the frame of the thread is as it was. -/
inductive Calls (r : Request) (c : Computer) (p : Processor) : UInt64 → Computer → Processor → Prop
  | mk {fuel : Nat} {g : Locals} {rax : UInt64} {c' : Computer} {regs : Registers}
      {m : ByteMemory.Memory} :
      r.Passes p.registers → FRAME_BYTES + 16 ≤ p.registers.rsp.toNat → r.InRange fuel g c →
      c.systemCall fuel g p.registers.rdi.toNat p.registers.rsi.toNat p.registers.rdx.toNat
        p.registers.rcx.toNat = .ok (rax.toNat, c') →
      ByteMemory.SameOn p.suspend.registers.rsp.toNat
        (p.suspend.registers.rsp.toNat + FRAME_BYTES) p.suspend.memory m →
      Calls r c p rax c' ((p.afterCall regs m).sysCallReturn rax)

/-- `yield`, until the thread is resumed. -/
inductive Yields (others : Computer → Computer → Prop) (c : Computer) (p : Processor) :
    Computer → Processor → Prop
  | mk {c' : Computer} {regs : Registers} {m : ByteMemory.Memory} :
      FRAME_BYTES + 16 ≤ p.registers.rsp.toNat → others c c' →
      ByteMemory.SameOn p.suspend.registers.rsp.toNat
        (p.suspend.registers.rsp.toNat + FRAME_BYTES) p.suspend.memory m →
      Yields others c p c' ((p.afterCall regs m).yieldReturn)

/-- The body of a library function, or of its loop: the system call and the `yield`. -/
inductive Round (others : Computer → Computer → Prop) (r : Request) (c : Computer) (p : Processor) :
    Int → Computer → Processor → Prop
  | mk {rax : UInt64} {c₁ c' : Computer} {p₁ p' : Processor} : r.Calls c p rax c₁ p₁ →
      (if r.yields then Yields others c₁ p₁ c' p' else c' = c₁ ∧ p' = p₁) →
      Round others r c p (r.value rax.toNat) c' p'

/-- `do … while`. Before the next round the program fills the registers again. -/
inductive DoWhile (again : Int → Bool)
    (round : Computer → Processor → Int → Computer → Processor → Prop) :
    Computer → Processor → Int → Computer → Processor → Prop
  | last {c c' : Computer} {p p' : Processor} {v : Int} : round c p v c' p' → again v = false →
      DoWhile again round c p v c' p'
  | next {c c₁ c' : Computer} {p p₁ p₂ p' : Processor} {v w : Int} : round c p v c₁ p₁ →
      again v = true → DoWhile again round c₁ p₂ w c' p' → DoWhile again round c p w c' p'

/-- A run of a library function from its first system call on: what it returns, and what it leaves. -/
def Library (others : Computer → Computer → Prop) (r : Request) :
    Computer → Processor → Int → Computer → Processor → Prop :=
  DoWhile (r.repeats ·) (r.Round others)

/-- A round as the program means it: the kernel's function on the arguments themselves. Only `rax`
changes. -/
structure Meant (others : Computer → Computer → Prop) (r : Request) (c : Computer) (p : Processor)
    (v : Int) (c' : Computer) (p' : Processor) : Prop where
  serve : ∃ fuel g c₁, r.serve fuel g c = .ok (v, c₁) ∧ if r.yields then others c₁ c' else c' = c₁
  registers : p'.registers = { p.registers with rax := rax v }

variable {r : Request} {v : Int} {c c' : Computer} {p p' : Processor}
  {others : Computer → Computer → Prop}

theorem DoWhile.mono {again : Int → Bool}
    {round round' : Computer → Processor → Int → Computer → Processor → Prop}
    (hround : ∀ c p v c' p', round c p v c' p' → round' c p v c' p')
    (h : DoWhile again round c p v c' p') : DoWhile again round' c p v c' p' := by
  induction h with
  | last hlast hend => exact .last (hround _ _ _ _ _ hlast) hend
  | next hnext hagain _ ih => exact .next (hround _ _ _ _ _ hnext) hagain ih

theorem DoWhile.ends {again : Int → Bool}
    {round : Computer → Processor → Int → Computer → Processor → Prop}
    (h : DoWhile again round c p v c' p') : again v = false := by
  induction h with
  | last _ hend => exact hend
  | next _ _ _ ih => exact ih

/-- The system call is the kernel's function, and the registers but `rax` come back. -/
theorem Calls.meant {x : UInt64} (hr : r.Fits) (h : r.Calls c p x c' p') :
    (∃ fuel g, r.serve fuel g c = .ok (r.value x.toNat, c')) ∧
      p'.registers = { p.registers with rax := rax (r.value x.toNat) } := by
  obtain @⟨fuel, g, _, _, regs, m, ⟨hrdi, hrsi, hrdx, hrcx⟩, hroom, htyped, hcall, hm⟩ := h
  rw [hrdi, hrsi, hrdx, hrcx, systemCall_params hr htyped] at hcall
  cases hserve : r.serve fuel g c with
  | error e =>
      rw [hserve] at hcall
      cases hcall
  | ok a =>
      obtain ⟨v, c₁⟩ := a
      rw [hserve] at hcall
      obtain ⟨hx, rfl⟩ := Prod.mk.inj (Except.ok.inj hcall)
      have hx : toUInt64 v = x.toNat := hx
      have hvalue : r.value x.toNat = v := by rw [← hx, value_toUInt64 (htyped v c₁ hserve)]
      have hrax : rax v = x := UInt64.toNat_inj.mp ((toNat_rax v).trans hx)
      have hrestored := (Processor.handlers_restore x hroom hm (g := regs)).2.2.1
      rw [hvalue, hrax, hrestored]
      exact ⟨⟨fuel, g, hserve⟩, rfl⟩

theorem Yields.registers (h : Yields others c p c' p') : others c c' ∧ p'.registers = p.registers := by
  obtain @⟨regs, m, hroom, hothers, hm⟩ := h
  have hrestored := (Processor.handlers_restore 0 hroom hm (g := regs)).2.1
  exact ⟨hothers, by rw [hrestored]⟩

theorem Round.meant (hr : r.Fits) (h : r.Round others c p v c' p') : r.Meant others c p v c' p' := by
  obtain ⟨hcall, hyield⟩ := h
  obtain ⟨⟨fuel, g, hserve⟩, hregisters⟩ := hcall.meant hr
  by_cases hy : r.yields = true
  · rw [if_pos hy] at hyield
    obtain ⟨hothers, hsame⟩ := hyield.registers
    exact ⟨⟨fuel, g, _, hserve, by rw [if_pos hy]; exact hothers⟩, hsame.trans hregisters⟩
  · rw [if_neg hy] at hyield
    obtain ⟨rfl, rfl⟩ := hyield
    exact ⟨⟨fuel, g, _, hserve, by rw [if_neg hy]⟩, hregisters⟩

/-- A library function that returned has carried out the kernel's function on its arguments themselves,
and returns the result: that of its one call, or of the first call of `read` that was not 0. In each
round the program finds its registers as they were, but for `rax`. -/
theorem served (hr : r.Fits) (h : r.Library others c p v c' p') :
    DoWhile (r.repeats ·) (r.Meant others) c p v c' p' ∧ r.repeats v = false :=
  ⟨h.mono fun _ _ _ _ _ hround => hround.meant hr, h.ends⟩

end Request

/-! ## Reading a key

The shell asks for a line before a key is typed. It is blocked, `init` runs while `a` is typed, and the
second call of the loop has it. -/

def firstLocals : Locals := ⟨0, 0, fun _ => 0, fun _ => 0⟩

def lineRequest : Request := .read 1 0x20000000 5

/-- A program with the parameters of `lineRequest` in its registers. -/
def askingProcessor : Processor :=
  { firstProcessor with
    registers := { firstProcessor.registers with rdi := 1, rsi := 1, rdx := 0x20000000, rcx := 5 } }

/-- What happens while the program waits: events of the kernel, and keys. -/
def meanwhile (c : Computer) : KernelOp ⊕ UInt8 → Except Stop Computer
  | .inl op => do return c.withMachine (← op.onMachine 40 c.machine)
  | .inr key => do return { c with terminal := ← keyBoardHandler 40 c.terminal true key }

def Meanwhile (c c' : Computer) : Prop :=
  ∃ es : List (KernelOp ⊕ UInt8), es.foldlM meanwhile c = .ok c'

/-- Ticks for a whole quantum of a process, and the one that ends it. -/
def quantum : List (KernelOp ⊕ UInt8) := List.replicate 6 (.inl (.tick nullGarbage 0x5000))

theorem exists_round {c c₁ c' : Computer} {n : Nat} (hread : c.read 40 1 0x20000000 5 = .ok (n, c₁))
    (hn : n < 2 ^ 31) (hothers : Meanwhile c₁ c') :
    ∃ p', lineRequest.Round Meanwhile c askingProcessor n c' p' := by
  -- The answer of one call as a value of the register.
  have hlt : n < 2 ^ 64 := hn.trans (by decide)
  have hx : (UInt64.ofNat n).toNat = n := UInt64.toNat_ofNat_of_lt hlt
  have hint : IsInt (n : Int) := ⟨by omega, by omega⟩
  have hvalue : lineRequest.value (UInt64.ofNat n).toNat = n := by
    rw [hx]
    exact toInt32_of_bounds hint.1 hint.2
  -- Whatever the call returns in this state is `n`.
  have hrange : lineRequest.InRange 40 firstLocals c := by
    intro v c₂ hserve
    have hserve : (c.read 40 1 0x20000000 5 >>= fun a => .ok ((a.1 : Int), a.2)) = .ok (v, c₂) := hserve
    rw [hread] at hserve
    obtain ⟨rfl, -⟩ := Prod.mk.inj (Except.ok.inj hserve)
    exact hint
  -- The library has put the arguments in the registers of the call.
  have hcall : c.systemCall 40 firstLocals askingProcessor.registers.rdi.toNat
      askingProcessor.registers.rsi.toNat askingProcessor.registers.rdx.toNat
      askingProcessor.registers.rcx.toNat = .ok ((UInt64.ofNat n).toNat, c₁) := by
    rw [hx]
    exact hread
  let m := askingProcessor.suspend.memory
  have hroom : FRAME_BYTES + 16 ≤ askingProcessor.registers.rsp.toNat := by decide
  have hcalls : lineRequest.Calls c askingProcessor (.ofNat n) c₁
      ((askingProcessor.afterCall zeroRegisters m).sysCallReturn (.ofNat n)) :=
    .mk ⟨rfl, rfl, rfl, rfl⟩ hroom hrange hcall (.refl _ _ _)
  -- behind the system call the stack pointer is the same
  let answered : Processor :=
    { registers := { askingProcessor.registers with rax := .ofNat n }, memory := m }
  have hrestored : (askingProcessor.afterCall zeroRegisters m).sysCallReturn (.ofNat n) = answered :=
    (Processor.handlers_restore (.ofNat n) hroom (ByteMemory.SameOn.refl _ _ m)).2.2.1
  rw [hrestored] at hcalls
  have hyields : Request.Yields Meanwhile c₁ answered c'
      (answered.afterCall zeroRegisters answered.suspend.memory).yieldReturn :=
    .mk hroom hothers (.refl _ _ _)
  have hround : lineRequest.Round Meanwhile c askingProcessor
      (lineRequest.value (UInt64.ofNat n).toNat) c' _ := .mk hcalls hyields
  rw [hvalue] at hround
  exact ⟨_, hround⟩

theorem servedRead_states : (do
    let m ← bootMachine
    let c ← quantum.foldlM meanwhile ⟨⟨m, .static⟩, .static⟩
    let (n₁, c₁) ← c.read 40 1 0x20000000 5
    let c₂ ← (.inl (.yield nullGarbage 0x5000) :: .inr 0x1E :: quantum).foldlM meanwhile c₁
    let (n₃, c₃) ← c₂.read 40 1 0x20000000 5
    let c₄ ← [.inl (.yield nullGarbage 0x5000)].foldlM meanwhile c₃
    return decide (n₁ = 0 ∧ n₃ = 1 ∧ c₄.kernel.char 0x20000000 = 97) : Except Stop Bool) = .ok true := by
  decide +kernel

theorem served_read : ∃ m c c' p', bootMachine = .ok m ∧
    quantum.foldlM meanwhile ⟨⟨m, .static⟩, .static⟩ = .ok c ∧ lineRequest.Library Meanwhile c askingProcessor 1 c' p' ∧
    c'.kernel.char 0x20000000 = 97 ∧
    Request.DoWhile (lineRequest.repeats ·) (lineRequest.Meant Meanwhile) c askingProcessor 1 c' p' ∧
    lineRequest.repeats 1 = false := by
  obtain ⟨m, hm, hrun⟩ := bind_eq_ok.mp servedRead_states
  obtain ⟨c, hc, hrun⟩ := bind_eq_ok.mp hrun
  obtain ⟨⟨n₁, c₁⟩, hread₁, hrun⟩ := bind_eq_ok.mp hrun
  obtain ⟨c₂, hwait₁, hrun⟩ := bind_eq_ok.mp hrun
  obtain ⟨⟨n₃, c₃⟩, hread₃, hrun⟩ := bind_eq_ok.mp hrun
  obtain ⟨c₄, hwait₃, hrun⟩ := bind_eq_ok.mp hrun
  obtain ⟨rfl, rfl, hchar⟩ := of_decide_eq_true (Except.ok.inj hrun)
  obtain ⟨p₁, hround₁⟩ := exists_round hread₁ (by decide) ⟨_, hwait₁⟩
  obtain ⟨p₃, hround₃⟩ := exists_round hread₃ (by decide) ⟨_, hwait₃⟩
  have hlibrary : lineRequest.Library Meanwhile c askingProcessor 1 c₄ p₃ :=
    .next hround₁ rfl (.last hround₃ rfl)
  exact ⟨m, c, c₄, p₃, hm, hc, hlibrary, hchar,
    Request.served ⟨⟨by decide, by decide⟩, by decide, by decide⟩ hlibrary⟩

end BasicKernel
