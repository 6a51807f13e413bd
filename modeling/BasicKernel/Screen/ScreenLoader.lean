import BasicKernel.Screen.VideoDriver

set_option autoImplicit false

/-! # `screenLoader.c`

The saved screens of the processes are in a list with links in both directions. The process on
focus is the one that is seen on the video screen.

A saved screen is a block of the kernel's heap, and so is a node. `Screen/ScreenList.lean` proves
what the functions do to the list.
-/

namespace BasicKernel

open Linked

structure ScreenNode where
  pid : Int
  screen : Addr
  currentPosition : Addr
  next : Addr
  prev : Addr
  deriving Inhabited

/-- `sizeof(screenNode)` -/
def SCREEN_NODE_SIZE : Nat := 40

/-- `WINDOW_SIZE*sizeof(char *)` -/
def SCREEN_SIZE : Nat := WINDOW_SIZE * 8

def NO_FOCUS : Int := -1

/-- The kernel with its screens. -/
structure Machine where
  kernel : Kernel
  video : Video
  screenNode : Addr → ScreenNode
  list : Addr
  onFocusPid : Int

namespace Machine

variable (m : Machine)

def modifyScreenNode (p : Addr) (f : ScreenNode → ScreenNode) : Except Stop Machine := do
  return { m with screenNode := ← modify m.screenNode p f }

def allocate (size : Nat) : Except Stop (Addr × Machine) := do
  let (p, kernel) ← m.kernel.allocate size
  return (p, { m with kernel })

def deallocate (p : Addr) (size : Nat) : Except Stop Machine := do
  return { m with kernel := ← m.kernel.deallocate p size }

end Machine

/-! ## Nodes -/

def findScreenNodeByPid (fuel : Nat) (m : Machine) (pid : Int) : Except Stop Addr :=
  walkWhile .outOfFuel
    (fun node => if node = NULL then .ok false else .ok (decide ((m.screenNode node).pid ≠ pid)))
    (fun node => do return (← load m.screenNode node).next)
    fuel m.list

def newScreenNode (m : Machine) : Except Stop (Addr × Machine) := do
  let (node, m) ← m.allocate SCREEN_NODE_SIZE
  if node = NULL then
    return (NULL, m)
  let (screen, m) ← m.allocate SCREEN_SIZE
  let m ← m.modifyScreenNode node fun n => { n with screen := screen }
  if screen = NULL then
    return (NULL, ← m.deallocate node SCREEN_NODE_SIZE)
  let m := { m with video := clear m.video screen }
  let m ← m.modifyScreenNode node fun n => { n with currentPosition := screen }
  return (node, m)

def addScreen : Nat → Machine → Addr → Addr → Int → Except Stop (Addr × Machine)
  | 0, _, _, _, _ => .error .outOfFuel
  | fuel + 1, m, current, prev, pid =>
      if current = NULL then do
        let (node, m) ← newScreenNode m
        if node = NULL then
          return (NULL, m)
        let m ← m.modifyScreenNode node fun n => { n with pid := pid, next := NULL, prev := prev }
        return (node, m)
      else do
        let (next, m) ← addScreen fuel m (← load m.screenNode current).next current pid
        let m ← m.modifyScreenNode current fun n => { n with next := next }
        return (current, m)

def removeScreenInner : Nat → Machine → Addr → Addr → Int → Except Stop (Addr × Machine)
  | 0, _, _, _, _ => .error .outOfFuel
  | fuel + 1, m, currentNode, prev, pid =>
      if currentNode = NULL then .ok (NULL, m)
      else do
        let node ← load m.screenNode currentNode
        if node.pid = pid then
          let next := node.next
          let m ←
            if next ≠ NULL then m.modifyScreenNode next fun n => { n with prev := prev } else pure m
          let m ← m.deallocate (← load m.screenNode currentNode).screen SCREEN_SIZE
          let m ← m.deallocate currentNode SCREEN_NODE_SIZE
          return (next, m)
        else
          let (next, m) ← removeScreenInner fuel m node.next currentNode pid
          let m ← m.modifyScreenNode currentNode fun n => { n with next := next }
          return (currentNode, m)

def removeScreen (fuel : Nat) (m : Machine) (pid : Int) : Except Stop Machine := do
  let m := if pid = m.onFocusPid then { m with onFocusPid := NO_FOCUS } else m
  let (list, m) ← removeScreenInner fuel m m.list NULL pid
  return { m with list }

/-! ## The focus -/

def saveScreen (fuel : Nat) (m : Machine) : Except Stop Machine := do
  let onFocusNode ← findScreenNodeByPid fuel m m.onFocusPid
  if onFocusNode = NULL then
    return m
  let (currentPosition, video) := backupContent m.video (← load m.screenNode onFocusNode).screen
  { m with video }.modifyScreenNode onFocusNode fun n => { n with currentPosition := currentPosition }

/-- The part of `loadScreen` for a process that has a node. -/
def showScreen (fuel : Nat) (m : Machine) (node : Addr) (pid : Int) : Except Stop Machine := do
  let m ← saveScreen fuel m
  let n ← load m.screenNode node
  return { m with video := setScreen m.video n.screen n.currentPosition, onFocusPid := pid }

def loadScreen (fuel : Nat) (m : Machine) (pid : Int) : Except Stop (Int × Machine) := do
  let node ← findScreenNodeByPid fuel m pid
  if node = NULL then
    let (list, m) ← addScreen fuel m m.list NULL pid
    let m := { m with list }
    let node ← findScreenNodeByPid fuel m pid
    if node = NULL then
      return (0, m)
    return (1, ← showScreen fuel m node pid)
  return (1, ← showScreen fuel m node pid)

def isCurrentProcessOnFocus (m : Machine) : Except Stop Bool := do
  return m.onFocusPid = (← getCurrentPid m.kernel)

def loadNextScreen (fuel : Nat) (m : Machine) : Except Stop Machine := do
  if m.onFocusPid = NO_FOCUS then
    return m
  let currentScreen ← findScreenNodeByPid fuel m m.onFocusPid
  let next := (← load m.screenNode currentScreen).next
  if next = NULL then
    return m
  return (← loadScreen fuel m (← load m.screenNode next).pid).2

def loadPreviousScreen (fuel : Nat) (m : Machine) : Except Stop Machine := do
  if m.onFocusPid = NO_FOCUS then
    return m
  let currentScreen ← findScreenNodeByPid fuel m m.onFocusPid
  let prev := (← load m.screenNode currentScreen).prev
  if prev = NULL then
    return m
  return (← loadScreen fuel m (← load m.screenNode prev).pid).2

/-! ## The screen of the current process

For a process that writes off focus. A process without a screen gets one first. -/

/-- `getCurrentScreenNode`. For a process without a screen it returns what `addScreen` returns,
the first node of the list, and does not store it. -/
def getCurrentScreenNode (fuel : Nat) (m : Machine) : Except Stop (Addr × Machine) := do
  let node ← findScreenNodeByPid fuel m (← getCurrentPid m.kernel)
  if node = NULL then
    addScreen fuel m m.list NULL (← getCurrentPid m.kernel)
  else return (node, m)

def getCurrentScreen (fuel : Nat) (m : Machine) : Except Stop (Addr × Machine) := do
  let (node, m) ← getCurrentScreenNode fuel m
  if node = NULL then
    return (NULL, m)
  return ((← load m.screenNode node).screen, m)

def getCurrentScreenPosition (fuel : Nat) (m : Machine) : Except Stop (Addr × Machine) := do
  let (node, m) ← getCurrentScreenNode fuel m
  if node = NULL then
    return (NULL, m)
  return ((← load m.screenNode node).currentPosition, m)

def setCurrentScreenPosition (fuel : Nat) (m : Machine) (newPosition : Addr) :
    Except Stop Machine := do
  let (node, m) ← getCurrentScreenNode fuel m
  m.modifyScreenNode node fun n => { n with currentPosition := newPosition }

end BasicKernel
