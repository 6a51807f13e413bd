import BasicKernel.Pipes.Queues
import BasicKernel.Screen.SystemCalls

set_option autoImplicit false

/-! # The conversation over two pipes

The programs `testPipes1` and `testPipes2` of the shell: two processes that share the static variables of
the shell and speak in turns, each over a pipe that the other reads. They are interleaved at every
system call and at every access to memory that they share, with whatever else the kernel and other
programs do, and a process may go on even where the scheduler would keep it waiting.

The runs begin when both pipes exist and both programs have left the loop that waits for the two names. Each
program has printed its lines `Cargando` and `Afinando` before it made its pipe, so they stand before all that
is printed here.

`testPipes_printed` is the result: what is printed is at every moment a beginning of the
transcript, and from every state that is reached the two programs can go on to its end.
-/

namespace BasicKernel

open Linked Fuel RingBuffer Transition

/-! ## The programs

Each speaker stands in front of one step of its program. The static variables are shared by
both. -/

/-- The process that runs `testPipes1`, and the one that runs `testPipes2`. -/
inductive Speaker where
  | el | ella
  deriving DecidableEq

namespace Speaker

def other : Speaker → Speaker
  | el => ella
  | ella => el

@[simp] theorem other_other (d : Speaker) : d.other.other = d := by cases d <;> rfl

theorem other_ne (d : Speaker) : d.other ≠ d := by cases d <;> decide

theorem eq_or_other (d e : Speaker) : e = d ∨ e = d.other := by
  cases d <;> cases e <;> simp [other]

end Speaker

/-- The lines that a speaker sends. -/
def script : Speaker → List (List UInt8)
  | .el => [chars "Quien es...", chars "Que vienes a buscar...", chars "Ya es tarde ...",
      chars "Porque ahora soy yo la que quiere estar sin ti ..."]
  | .ella => [chars "Soy yo...", chars "A ti ...", chars "Porque..."]

/-- What a speaker does next. -/
inductive TalkStep where
  | strcpy
  | send
  /-- `buff2[0] = 0` -/
  | clear
  /-- the loop around `receive` -/
  | receive
  /-- `count++` reads -/
  | count
  /-- `count++` writes -/
  | store
  | print
  /-- the line behind the last answer -/
  | terminado
  | done
  deriving DecidableEq

/-- What `malloc(200)` was asked for. -/
def TALK_BUFFER : Nat := 200

/-- The memory that the programs work on. -/
inductive Area where
  /-- the buffer of the pipe that the speaker reads -/
  | pipe (d : Speaker)
  | buff (d : Speaker)
  | buff2 (d : Speaker)
  deriving DecidableEq

def Area.size : Area → Nat
  | .pipe _ => PIPE_BUF_SIZE
  | .buff _ => TALK_BUFFER
  | .buff2 _ => TALK_BUFFER

/-- The pipes that the speakers read, their names (`pipeName2` and `pipeName`) and the addresses of the
buffers. -/
structure TestPipes where
  pipe : Speaker → Addr
  name : Speaker → Addr
  start : Area → Addr

/-- What a call of `printf` prints. -/
inductive TalkLine where
  /-- `"%d - Ella: %s...\n"` of `testPipes1` and `"%d - Joaquin: %s...\n"` of `testPipes2`, with the contents
  of its `buff2` -/
  | heard (n : Int) (d : Speaker) (block : List UInt8)
  /-- `"Terminado el\n"` or `"Terminado ella\n"` -/
  | terminado (d : Speaker)
  deriving DecidableEq

/-- A state of a run, with the lines that a speaker has not sent yet, the value that its `count++` has
read, and what was printed. -/
structure TalkState where
  kernel : Kernel
  count : Int
  next : Speaker → TalkStep
  lines : Speaker → List (List UInt8)
  read : Speaker → Int
  printed : List TalkLine

/-- `strcpy`, from a string literal. -/
def strcpy : Kernel → Addr → List UInt8 → Except Stop Kernel
  | k, dest, [] => k.setChar dest 0
  | k, dest, c :: src => do strcpy (← k.setChar dest c) (dest + 1) src

namespace TestPipes

variable (P : TestPipes)

def Within (x : Area) (a : Nat) : Prop := P.start x ≤ a ∧ a < P.start x + x.size

/-- The areas were allocated: they lie apart. -/
structure Layout : Prop where
  pipes : P.pipe .el ≠ P.pipe .ella
  ne : ∀ x, P.start x ≠ NULL
  apart : ∀ x y a, P.Within x a → P.Within y a → x = y

/-- The pipes are found by their names, which lie outside the areas. -/
def Found (k : Kernel) : Prop :=
  ∀ char : Addr → UInt8, (∀ a, (∀ x, ¬ P.Within x a) → char a = k.char a) →
    ∀ d, Returns (getPipe · { k with char := char } (P.name d)) (P.pipe d)

/-- What others do leaves the pipes and the buffers alone. -/
structure Spared (k k' : Kernel) : Prop where
  pipe : ∀ d, k'.pipe (P.pipe d) = k.pipe (P.pipe d)
  char : ∀ x a, P.Within x a → k'.char a = k.char a
  found : P.Found k'

/-- The pipes are there, the programs stand behind the loops that wait for them, for the first time.
The buffers `buff2` hold `blocks`. -/
structure Started (blocks : Speaker → List UInt8) (s : TalkState) : Prop where
  layout : P.Layout
  found : P.Found s.kernel
  pipes : ∀ d, ∃ r w, s.kernel.PipeHolds (P.pipe d) r w []
  cells : ∀ d, (s.kernel.pipe (P.pipe d)).buffer = P.start (.pipe d)
  blocks : ∀ d, s.kernel.bytes (P.start (.buff2 d)) TALK_BUFFER = blocks d
  count : s.count = 0
  el : s.next .el = .strcpy
  ella : s.next .ella = .clear
  lines : s.lines = script
  printed : s.printed = []

inductive Step : TalkState → TalkState → Prop
  | strcpy {s : TalkState} {k' : Kernel} (d : Speaker) {line : List UInt8} {rest : List (List UInt8)} :
      s.next d = .strcpy → s.lines d = line :: rest →
      strcpy s.kernel (P.start (.buff d)) line = .ok k' →
      Step s { s with kernel := k', next := Function.update s.next d .send }
  | send {s : TalkState} {k' : Kernel} {fuel : Nat} (d : Speaker) : s.next d = .send →
      writeToPipe fuel s.kernel (P.name d.other) (P.start (.buff d)) = .ok k' →
      Step s { s with
        kernel := k'
        lines := Function.update s.lines d (s.lines d).tail
        next := Function.update s.next d .clear }
  | clear {s : TalkState} {k' : Kernel} (d : Speaker) : s.next d = .clear →
      s.kernel.setChar (P.start (.buff2 d)) 0 = .ok k' →
      Step s { s with kernel := k', next := Function.update s.next d .receive }
  | receive {s : TalkState} {k' : Kernel} {fuel : Nat} (d : Speaker) : s.next d = .receive →
      load s.kernel.char (P.start (.buff2 d)) = .ok 0 →
      readFromPipe fuel s.kernel (P.name d) (P.start (.buff2 d)) = .ok k' →
      Step s { s with kernel := k' }
  | heard {s : TalkState} {c : UInt8} (d : Speaker) : s.next d = .receive →
      load s.kernel.char (P.start (.buff2 d)) = .ok c → c ≠ 0 →
      Step s { s with next := Function.update s.next d .count }
  | count {s : TalkState} (d : Speaker) : s.next d = .count →
      Step s { s with
        read := Function.update s.read d s.count
        next := Function.update s.next d .store }
  | store {s : TalkState} (d : Speaker) : s.next d = .store →
      Step s { s with count := s.read d + 1, next := Function.update s.next d .print }
  | print {s : TalkState} (d : Speaker) : s.next d = .print →
      Step s { s with
        printed := s.printed ++ [.heard (s.read d) d (s.kernel.bytes (P.start (.buff2 d)) TALK_BUFFER)]
        next := Function.update s.next d (if s.lines d = [] then .terminado else .strcpy) }
  | terminado {s : TalkState} (d : Speaker) : s.next d = .terminado →
      Step s { s with
        printed := s.printed ++ [.terminado d]
        next := Function.update s.next d .done }
  | other {s : TalkState} {k' : Kernel} : P.Spared s.kernel k' → Step s { s with kernel := k' }

end TestPipes

/-! ## What is heard

The dialogue that the two scripts make, and what is printed when each line is heard in a buffer
that was used before. -/

/-- The lines in turns, each with the speaker that hears it. `t` speaks first, `ls` are its lines. -/
def talk (t : Speaker) : List (List UInt8) → List (List UInt8) → List (Speaker × List UInt8)
  | [], _ => []
  | line :: ls, ms => (t.other, line) :: talk t.other ms ls
  termination_by ls ms => ls.length + ms.length

def dialogue : List (Speaker × List UInt8) := talk .el (script .el) (script .ella)

/-- A line in a buffer that was used before. `readFromPipe` does not put a terminator behind it. -/
def overlay (line block : List UInt8) : List UInt8 := line ++ block.drop line.length

/-- What is printed when the lines are heard, from the number `n` on. -/
def hear : (Speaker → List UInt8) → Int → List (Speaker × List UInt8) → List TalkLine
  | _, _, [] => []
  | blocks, n, (d, line) :: rest => .heard n d (overlay line (blocks d)) ::
      hear (Function.update blocks d (overlay line (blocks d))) (n + 1) rest

/-- All that the two programs print in their conversation: the dialogue, and the last line of `testPipes2`. -/
def transcript (blocks : Speaker → List UInt8) : List TalkLine :=
  hear blocks 0 dialogue ++ [.terminado .ella]

theorem talk_cons (t : Speaker) (line : List UInt8) (ls ms : List (List UInt8)) :
    talk t (line :: ls) ms = (t.other, line) :: talk t.other ms ls := by rw [talk]

theorem talk_nil (t : Speaker) (ms : List (List UInt8)) : talk t [] ms = [] := by rw [talk]

theorem overlay_congr {line block block' : List UInt8} (hne : line ≠ [])
    (h : block.tail = block'.tail) : overlay line block = overlay line block' := by
  obtain ⟨c, cs, rfl⟩ := List.exists_cons_of_ne_nil hne
  rw [overlay, overlay, List.length_cons, ← List.drop_tail, ← List.drop_tail, h]

/-- A line that can be sent: a string that fits into a buffer. -/
structure IsLine (line : List UInt8) : Prop where
  ne_nil : line ≠ []
  ended : 0 ∉ line
  fits : line.length < TALK_BUFFER

instance (line : List UInt8) : Decidable (IsLine line) :=
  decidable_of_iff (line ≠ [] ∧ 0 ∉ line ∧ line.length < TALK_BUFFER)
    ⟨fun h => ⟨h.1, h.2.1, h.2.2⟩, fun h => ⟨h.ne_nil, h.ended, h.fits⟩⟩

theorem dialogue_eq : dialogue = [(.ella, chars "Quien es..."), (.el, chars "Soy yo..."),
    (.ella, chars "Que vienes a buscar..."), (.el, chars "A ti ..."), (.ella, chars "Ya es tarde ..."),
    (.el, chars "Porque..."),
    (.ella, chars "Porque ahora soy yo la que quiere estar sin ti ...")] := by
  simp only [dialogue, script, talk_cons, talk_nil, Speaker.other]

theorem dialogue_isLine : ∀ x ∈ dialogue, IsLine x.2 := by
  rw [dialogue_eq]
  decide +kernel

/-- `testPipes2` has the last word to hear. -/
theorem dialogue_last {past : List (Speaker × List UInt8)} {d : Speaker} {line : List UInt8}
    (h : dialogue = past ++ [(d, line)]) : d = .ella := by
  have hlast := congrArg List.getLast? h
  rw [List.getLast?_append, dialogue_eq] at hlast
  exact (congrArg Prod.fst (Option.some.inj hlast)).symm

/-! ## Memory -/

section Memory

variable {k k' : Kernel} {p : Addr}

theorem Kernel.length_bytes (k : Kernel) (p : Addr) (n : Nat) : (k.bytes p n).length = n := by
  rw [Kernel.bytes, List.length_map, List.length_range]

theorem Kernel.bytes_congr {n : Nat} (h : ∀ i, i < n → k'.char (p + i) = k.char (p + i)) :
    k'.bytes p n = k.bytes p n :=
  List.map_congr_left fun i hi => h i (List.mem_range.mp hi)

theorem Kernel.tail_bytes (k : Kernel) (p : Addr) (n : Nat) :
    (k.bytes p (n + 1)).tail = k.bytes (p + 1) n := by
  rw [Kernel.bytes_succ, List.tail_cons]

theorem Kernel.bytes_add (k : Kernel) (p : Addr) (m n : Nat) :
    k.bytes p (m + n) = k.bytes p m ++ k.bytes (p + m) n := by
  rw [Kernel.bytes, List.range_add, List.map_append, List.map_map]
  congr 1
  refine List.map_congr_left fun i _ => ?_
  show k.char (p + (m + i)) = k.char (p + m + i)
  rw [Nat.add_assoc]

/-- The bytes of an area into which a line was copied. -/
theorem Kernel.bytes_overlay {line : List UInt8} {n : Nat} (hle : line.length ≤ n)
    (hline : k'.bytes p line.length = line)
    (hrest : ∀ i, line.length ≤ i → i < n → k'.char (p + i) = k.char (p + i)) :
    k'.bytes p n = overlay line (k.bytes p n) := by
  obtain ⟨m, rfl⟩ := Nat.exists_eq_add_of_le hle
  have hsame : k'.bytes (p + line.length) m = k.bytes (p + line.length) m := by
    refine Kernel.bytes_congr fun i hi => ?_
    rw [Nat.add_assoc]
    exact hrest _ (Nat.le_add_right _ _) (Nat.add_lt_add_left hi _)
  rw [overlay, k.bytes_add, k'.bytes_add, hline, hsame, List.drop_left' (k.length_bytes p _)]

/-- `strcpy` leaves the line and its terminator at `dest`. -/
theorem strcpy_inv {dest : Addr} {src : List UInt8} (h : strcpy k dest src = .ok k') :
    ∃ char, k' = { k with char := char } ∧
      (∀ a : Nat, (∀ i, i ≤ src.length → a ≠ dest + i) → char a = k.char a) ∧
      (0 ∉ src → k'.IsString dest src) := by
  -- By induction on the line; the last store is the terminator.
  induction src generalizing k dest with
  | nil =>
      have hne : dest ≠ NULL := by
        rintro rfl
        rw [strcpy, Kernel.setChar, modify_null] at h
        cases h
      rw [strcpy, Kernel.setChar_of_ne hne] at h
      obtain rfl := Except.ok.inj h
      refine ⟨_, rfl, fun a ha => ?_, fun _ => Function.update_self ..⟩
      exact Function.update_of_ne (ha 0 le_rfl) _ _
  | cons c src ih =>
      obtain ⟨k₁, hset, h⟩ := bind_eq_ok.mp h
      have hne : dest ≠ NULL := by
        rintro rfl
        rw [Kernel.setChar, modify_null] at hset
        cases hset
      rw [Kernel.setChar_of_ne hne] at hset
      obtain rfl := Except.ok.inj hset
      obtain ⟨char, rfl, hframe, hstr⟩ := ih h
      -- The later stores are behind this one.
      have hbehind : ∀ i, dest ≠ dest + 1 + i := fun i => by
        rw [Nat.add_assoc]
        exact Nat.ne_of_lt (Nat.lt_add_of_pos_right (Nat.add_pos_left Nat.one_pos i))
      refine ⟨char, rfl, fun a ha => ?_, fun hzero => ?_⟩
      · rw [hframe a fun i hi => ?_]
        · exact Function.update_of_ne (ha 0 (Nat.zero_le _)) _ _
        · rw [Nat.add_assoc, Nat.add_comm 1 i]
          exact ha (i + 1) (Nat.succ_le_succ hi)
      · rw [List.mem_cons, not_or] at hzero
        refine ⟨?_, Ne.symm hzero.1, hstr hzero.2⟩
        show char dest = c
        rw [hframe dest fun i _ => hbehind i]
        exact Function.update_self ..

end Memory

/-! ## What a step keeps

A step writes in certain areas, and all that lies in the others stays. -/

namespace TestPipes

variable {P : TestPipes} {k k' : Kernel} {X : List Area} {d e : Speaker} {xs line : List UInt8}
  {stored : Speaker → List UInt8}

theorem within_start (x : Area) {i : Nat} (hi : i < x.size) : P.Within x (P.start x + i) :=
  ⟨Nat.le_add_right _ _, Nat.add_lt_add_left hi _⟩

theorem Layout.not_within (h : P.Layout) {x y : Area} (hne : x ≠ y) {i : Nat} (hi : i < x.size) :
    ¬ P.Within y (P.start x + i) := fun hy => hne (h.apart x y _ (within_start x hi) hy)

theorem Layout.pipe_ne (h : P.Layout) (hne : e ≠ d) : P.pipe e ≠ P.pipe d := by
  cases d <;> cases e
  · exact absurd rfl hne
  · exact h.pipes.symm
  · exact h.pipes
  · exact absurd rfl hne

/-- What the step writes lies in the areas `X`. -/
structure Keeps (P : TestPipes) (X : List Area) (k k' : Kernel) : Prop where
  found : P.Found k'
  pipe : ∀ d, .pipe d ∉ X → k'.pipe (P.pipe d) = k.pipe (P.pipe d)
  cells : ∀ d, (k'.pipe (P.pipe d)).buffer = (k.pipe (P.pipe d)).buffer
  char : ∀ x, x ∉ X → ∀ a, P.Within x a → k'.char a = k.char a

theorem Spared.keeps (h : P.Spared k k') : P.Keeps [] k k' where
  found := h.found
  pipe d _ := h.pipe d
  cells d := by rw [h.pipe d]
  char x _ := h.char x

theorem Found.of_same (h : P.Found k) (hlist : k'.pipeList = k.pipeList)
    (hnames : ∀ q, (k'.pipe q).next = (k.pipe q).next ∧ (k'.pipe q).name = (k.pipe q).name)
    (hchar : ∀ a, (∀ x, ¬ P.Within x a) → k'.char a = k.char a) : P.Found k' := by
  intro char hout d
  have hfound := h char (fun a ha => (hout a ha).trans (hchar a ha)) d
  have hsame : (getPipe · { k' with char := char } (P.name d))
      = (getPipe · { k with char := char } (P.name d)) := by
    funext fuel
    exact getPipe_congr hlist hnames rfl
  rwa [hsame]

theorem Found.getPipe (h : P.Found k) (d : Speaker) : Returns (getPipe · k (P.name d)) (P.pipe d) :=
  h k.char (fun _ _ => rfl) d

/-- Stores into areas, without the pipes. -/
theorem Keeps.of_char {char : Addr → UInt8} (hL : P.Layout) (h : P.Found k)
    (hchar : ∀ a, (∀ x ∈ X, ¬ P.Within x a) → char a = k.char a) :
    P.Keeps X k { k with char := char } where
  found := h.of_same rfl (fun _ => ⟨rfl, rfl⟩) fun a ha => hchar a fun x _ => ha x
  pipe _ _ := rfl
  cells _ := rfl
  char x hx a ha := hchar a fun y hy hya => hx (hL.apart x y a ha hya ▸ hy)

/-- A call on the pipe that `d` reads. -/
theorem Keeps.of_table (hL : P.Layout) (h : P.Found k) (htable : k.SameTable k' (P.pipe d))
    (hX : .pipe d ∈ X) (hchar : ∀ a, (∀ x ∈ X, ¬ P.Within x a) → k'.char a = k.char a) :
    P.Keeps X k k' where
  found := h.of_same htable.list htable.names fun a ha => hchar a fun x _ => ha x
  pipe e he := htable.other _ (hL.pipe_ne fun hed => he (hed ▸ hX))
  cells e := by
    by_cases hed : e = d
    · rw [hed, htable.buffer]
    · rw [htable.other _ (hL.pipe_ne hed)]
  char x hx a ha := hchar a fun y hy hya => hx (hL.apart x y a ha hya ▸ hy)

theorem Keeps.bytes (h : P.Keeps X k k') {x : Area} (hx : x ∉ X) {n : Nat} (hn : n ≤ x.size) :
    k'.bytes (P.start x) n = k.bytes (P.start x) n :=
  Kernel.bytes_congr fun _ hi => h.char x hx _ (within_start x (Nat.lt_of_lt_of_le hi hn))

theorem Keeps.first (h : P.Keeps X k k') {x : Area} (hx : x ∉ X) (hpos : 0 < x.size) :
    k'.char (P.start x) = k.char (P.start x) := h.char x hx _ (within_start x hpos)

/-- The pipes carry the bytes `stored`. -/
structure Carries (P : TestPipes) (k : Kernel) (stored : Speaker → List UInt8) : Prop where
  found : P.Found k
  pipes : ∀ d, ∃ r w, k.PipeHolds (P.pipe d) r w (stored d)
  cells : ∀ d, (k.pipe (P.pipe d)).buffer = P.start (.pipe d)

/-- What a pipe carries stays when its area does. -/
theorem Carries.pipe (h : P.Carries k stored) (hk : P.Keeps X k k') (hd : .pipe d ∉ X) :
    ∃ r w, k'.PipeHolds (P.pipe d) r w (stored d) := by
  obtain ⟨r, w, hholds⟩ := h.pipes d
  refine ⟨r, w, hholds.congr (hk.pipe d hd) fun i hi => hk.char (.pipe d) hd _ ?_⟩
  rw [h.cells d]
  exact within_start (.pipe d) hi

theorem Carries.keeps (h : P.Carries k stored) (hk : P.Keeps X k k') (hX : ∀ d, .pipe d ∉ X) :
    P.Carries k' stored where
  found := hk.found
  pipes d := h.pipe hk (hX d)
  cells d := (hk.cells d).trans (h.cells d)

/-- A call on the pipe that `d` reads. -/
theorem Carries.call (h : P.Carries k stored) (hk : P.Keeps X k k') (hX : ∀ e, e ≠ d → .pipe e ∉ X)
    (hd : ∃ r w, k'.PipeHolds (P.pipe d) r w xs) : P.Carries k' (Function.update stored d xs) where
  found := hk.found
  pipes e := by
    by_cases hed : e = d
    · subst hed
      rwa [Function.update_self]
    · rw [Function.update_of_ne hed]
      exact h.pipe hk (hX e hed)
  cells e := (hk.cells e).trans (h.cells e)

/-! ### The calls

A line is sent as a whole and received as a whole, because it fits into a pipe. -/

theorem Carries.apart (h : P.Carries k stored) (hL : P.Layout) {x : Area} (hx : x ≠ .pipe d) {n : Nat}
    (hn : n ≤ x.size) : k.Apart (P.pipe d) (P.start x) n := by
  intro i hi j hj heq
  rw [h.cells d] at heq
  refine hL.not_within hx (Nat.lt_of_lt_of_le hi hn) (y := .pipe d) ?_
  rw [heq]
  exact within_start (.pipe d) hj

/-- The addresses that are not in the area of a pipe. -/
theorem Carries.outside (h : P.Carries k stored) {a : Nat} (ha : ¬ P.Within (.pipe d) a) :
    ∀ j, j < PIPE_BUF_SIZE → a ≠ (k.pipe (P.pipe d)).buffer + j := by
  rintro j hj rfl
  rw [h.cells d] at ha
  exact ha (within_start (.pipe d) hj)

theorem Carries.send {fuel : Nat} (h : P.Carries k stored) (hL : P.Layout) (hline : IsLine line)
    (hempty : stored e = []) (hstr : k.IsString (P.start (.buff d)) line)
    (hrun : writeToPipe fuel k (P.name e) (P.start (.buff d)) = .ok k') :
    P.Keeps [.pipe e] k k' ∧ P.Carries k' (Function.update stored e line) ∧
      ∀ a, (∀ x, ¬ P.Within x a) → k'.char a = k.char a := by
  obtain ⟨r, w, hholds⟩ := h.pipes e
  rw [hempty] at hholds
  have hapart : k.Apart (P.pipe e) (P.start (.buff d)) (line.length + 1) :=
    h.apart hL (x := .buff d) (by simp) hline.fits
  obtain ⟨⟨w', hholds'⟩, htable, hframe⟩ :=
    hholds.writeToPipe_frame (h.found.getPipe e) (hL.ne _) hstr hapart hrun
  have hfits : line.length ≤ PIPE_BUF_SIZE := hline.fits.le.trans (by decide)
  rw [List.nil_append, List.length_nil, Nat.sub_zero, List.take_of_length_le hfits] at hholds'
  have hk : P.Keeps [.pipe e] k k' := .of_table hL h.found htable List.mem_cons_self fun a ha =>
    hframe a (h.outside (ha _ List.mem_cons_self))
  exact ⟨hk, h.call hk (fun c hc => by simp [hc]) ⟨r, w', hholds'⟩,
    fun a ha => hframe a (h.outside (ha _))⟩

theorem Carries.receive {fuel : Nat} (h : P.Carries k stored) (hL : P.Layout)
    (hline : IsLine line) (hstored : stored d = line)
    (hrun : readFromPipe fuel k (P.name d) (P.start (.buff2 d)) = .ok k') :
    P.Keeps [.pipe d, .buff2 d] k k' ∧ P.Carries k' (Function.update stored d []) ∧
      k'.bytes (P.start (.buff2 d)) TALK_BUFFER
        = overlay line (k.bytes (P.start (.buff2 d)) TALK_BUFFER) ∧
      ∀ a, (∀ x, ¬ P.Within x a) → k'.char a = k.char a := by
  -- There is a line in the pipe, so that the read takes all of it.
  obtain ⟨c, cs, rfl⟩ := List.exists_cons_of_ne_nil hline.ne_nil
  obtain ⟨r, w, hholds⟩ := h.pipes d
  rw [hstored] at hholds
  have hapart : k.Apart (P.pipe d) (P.start (.buff2 d)) (c :: cs).length :=
    h.apart hL (x := .buff2 d) (by simp) hline.fits.le
  obtain ⟨⟨r', hholds'⟩, hbytes, htable, hframe⟩ :=
    hholds.readFromPipe_frame (h.found.getPipe d) (hL.ne _) hapart hrun
  have hbuff : ∀ i, i < (c :: cs).length → P.Within (.buff2 d) (P.start (.buff2 d) + i) :=
    fun i hi => within_start (.buff2 d) (hi.trans hline.fits)
  -- Only the pipe and the buffer of the receiver are written.
  have hkept : ∀ a, ¬ P.Within (.pipe d) a → ¬ P.Within (.buff2 d) a → k'.char a = k.char a := by
    intro a hpipe hbuff2
    refine hframe a (h.outside hpipe) ?_
    rintro i hi rfl
    exact hbuff2 (hbuff i hi)
  have hk : P.Keeps [.pipe d, .buff2 d] k k' :=
    .of_table hL h.found htable List.mem_cons_self fun a ha =>
      hkept a (ha _ List.mem_cons_self) (ha _ (List.mem_cons_of_mem _ List.mem_cons_self))
  refine ⟨hk, h.call hk (fun e he => by simp [he]) ⟨r', w, hholds'⟩, ?_, fun a ha => hkept a (ha _) (ha _)⟩
  -- Behind the line the buffer has what it had before.
  refine Kernel.bytes_overlay hline.fits.le hbytes fun i hle hi => hframe _ ?_ ?_
  · exact h.outside (hL.not_within (by simp) hi)
  · intro j hj heq
    exact absurd (Nat.add_left_cancel heq) (by omega)

/-- A read that finds nothing. -/
theorem Carries.receive_empty {fuel : Nat} (h : P.Carries k stored) (hempty : stored d = [])
    (hrun : readFromPipe fuel k (P.name d) (P.start (.buff2 d)) = .ok k') : P.Keeps [] k k' := by
  obtain ⟨r, w, hholds⟩ := h.pipes d
  rw [hempty] at hholds
  obtain ⟨process, thread, ticks, rfl⟩ :=
    hholds.readFromPipe_statesOnly (h.found.getPipe d) hrun
  exact ⟨h.found.of_same rfl (fun _ => ⟨rfl, rfl⟩) fun _ _ => rfl, fun _ _ => rfl, fun _ => rfl,
    fun _ _ _ _ => rfl⟩

/-! ## Turns

At each moment one of the two has the word, and the other waits for it. -/

section Turns

variable (P : TestPipes) (s : TalkState) (blocks : Speaker → List UInt8)

/-- The speaker listens, and nothing has arrived. -/
def Waits (d : Speaker) : Prop :=
  s.next d = .clear ∨ s.next d = .receive ∧ s.kernel.char (P.start (.buff2 d)) = 0

/-- The speaker is about to send the line. -/
def Tells (d : Speaker) (line : List UInt8) : Prop :=
  s.next d = .strcpy ∨ s.next d = .send ∧ s.kernel.IsString (P.start (.buff d)) line

/-- The line has arrived, and the speaker is about to print it. -/
structure Hears (d : Speaker) (line : List UInt8) : Prop where
  block : s.kernel.bytes (P.start (.buff2 d)) TALK_BUFFER = overlay line (blocks d)
  stage : (s.next d = .receive ∧ s.kernel.char (P.start (.buff2 d)) ≠ 0 ∨ s.next d = .count) ∧
      s.count = s.printed.length ∨
    s.next d = .store ∧ s.read d = s.printed.length ∨
    s.next d = .print ∧ s.read d = s.printed.length ∧ s.count = s.printed.length + 1

/-- `buff2` holds the block of the speaker, but for the first byte. -/
def HasBlock (d : Speaker) : Prop :=
  (s.kernel.bytes (P.start (.buff2 d)) TALK_BUFFER).tail = (blocks d).tail

/-- Whose turn it is, with what the pipes carry and the lines that are not printed yet. -/
inductive Turn : (Speaker → List UInt8) → List (Speaker × List UInt8) → Prop
  | tells {t : Speaker} {line : List UInt8} {rest : List (List UInt8)} :
      s.lines t = line :: rest → P.Tells s t line → P.Waits s t.other →
      s.count = s.printed.length → (∀ d, P.HasBlock s blocks d) →
      Turn (fun _ => []) (talk t (line :: rest) (s.lines t.other))
  | sent {d : Speaker} {line : List UInt8} : P.Waits s d → P.Waits s d.other →
      s.count = s.printed.length → (∀ d, P.HasBlock s blocks d) →
      Turn (Function.update (fun _ => []) d line)
        ((d, line) :: talk d (s.lines d) (s.lines d.other))
  | hears {d : Speaker} {line : List UInt8} : P.Hears s blocks d line → P.Waits s d.other →
      P.HasBlock s blocks d.other →
      Turn (fun _ => []) ((d, line) :: talk d (s.lines d) (s.lines d.other))
  | finished : s.next .ella = .terminado ∨ s.next .ella = .done → P.Waits s .el → Turn (fun _ => []) []

end Turns

variable {s s' : TalkState} {blocks : Speaker → List UInt8} {rest : List (Speaker × List UInt8)}

theorem Waits.stage (h : P.Waits s d) : s.next d = .clear ∨ s.next d = .receive :=
  h.imp_right And.left

theorem Tells.stage_eq (h : P.Tells s d line) : s.next d = .strcpy ∨ s.next d = .send :=
  h.imp_right And.left

theorem Hears.stage_eq (h : P.Hears s blocks d line) :
    s.next d = .receive ∨ s.next d = .count ∨ s.next d = .store ∨ s.next d = .print := by
  rcases h.stage with ⟨⟨h, -⟩ | h, -⟩ | ⟨h, -⟩ | ⟨h, -⟩
  · exact .inl h
  · exact .inr (.inl h)
  · exact .inr (.inr (.inl h))
  · exact .inr (.inr (.inr h))

/-- A speaker that copies or sends holds the word. -/
theorem Turn.of_tells (h : P.Turn s blocks stored rest) (hd : s.next d = .strcpy ∨ s.next d = .send) :
    ∃ line ls, s.lines d = line :: ls ∧ P.Tells s d line ∧ P.Waits s d.other ∧
      s.count = s.printed.length ∧ (∀ d, P.HasBlock s blocks d) ∧ stored = (fun _ => []) ∧
      rest = talk d (line :: ls) (s.lines d.other) := by
  have hwait : ¬ P.Waits s d := by
    intro hw
    rcases hw.stage with h | h <;> rcases hd with h' | h' <;> rw [h] at h' <;> cases h'
  -- The speaker tells, or it waits, which it does not.
  cases h with
  | @tells t line ls hlines htells hw hcount hblocks =>
      obtain rfl | rfl := t.eq_or_other d
      · exact ⟨line, ls, hlines, htells, hw, hcount, hblocks, rfl, rfl⟩
      · exact absurd hw hwait
  | @sent e line hw hw' =>
      obtain rfl | rfl := e.eq_or_other d
      · exact absurd hw hwait
      · exact absurd hw' hwait
  | @hears e line hh hw =>
      obtain rfl | rfl := e.eq_or_other d
      · rcases hh.stage_eq with h | h | h | h <;> rcases hd with h' | h' <;> rw [h] at h' <;> cases h'
      · exact absurd hw hwait
  | finished hdone hw =>
      obtain rfl | rfl := Speaker.el.eq_or_other d
      · exact absurd hw hwait
      · rcases hdone with h | h <;> rcases hd with h' | h' <;> exact absurd (h.symm.trans h') (by decide)

/-- A speaker that counts or prints has heard a line. -/
theorem Turn.of_hears (h : P.Turn s blocks stored rest)
    (hd : s.next d = .receive ∧ s.kernel.char (P.start (.buff2 d)) ≠ 0 ∨ s.next d = .count ∨
      s.next d = .store ∨ s.next d = .print) :
    ∃ line, P.Hears s blocks d line ∧ P.Waits s d.other ∧ P.HasBlock s blocks d.other ∧
      stored = (fun _ => []) ∧ rest = (d, line) :: talk d (s.lines d) (s.lines d.other) := by
  have hwait : ¬ P.Waits s d := by
    rintro (h | ⟨h, hzero⟩) <;> rcases hd with ⟨h', hne⟩ | h' | h' | h'
    all_goals first | exact absurd (h.symm.trans h') (by decide) | exact hne hzero
  -- The speaker hears, or it waits, which it does not.
  cases h with
  | @tells t line ls hlines htells hw =>
      obtain rfl | rfl := t.eq_or_other d
      · rcases htells.stage_eq with h | h <;> rcases hd with ⟨h', -⟩ | h' | h' | h' <;>
          exact absurd (h.symm.trans h') (by decide)
      · exact absurd hw hwait
  | @sent e line hw hw' =>
      obtain rfl | rfl := e.eq_or_other d
      · exact absurd hw hwait
      · exact absurd hw' hwait
  | @hears e line hh hw hblock =>
      obtain rfl | rfl := e.eq_or_other d
      · exact ⟨line, hh, hw, hblock, rfl, rfl⟩
      · exact absurd hw hwait
  | finished hdone hw =>
      obtain rfl | rfl := Speaker.el.eq_or_other d
      · exact absurd hw hwait
      · rcases hdone with h | h <;> rcases hd with ⟨h', -⟩ | h' | h' | h' <;>
          exact absurd (h.symm.trans h') (by decide)

/-- Only a line that was sent and not read is in a pipe. -/
theorem Turn.of_stored (h : P.Turn s blocks stored rest) (hd : stored d ≠ []) :
    stored = Function.update (fun _ => []) d (stored d) ∧ P.Waits s d ∧ P.Waits s d.other ∧
      s.count = s.printed.length ∧ (∀ d, P.HasBlock s blocks d) ∧
      rest = (d, stored d) :: talk d (s.lines d) (s.lines d.other) := by
  cases h with
  | tells => exact absurd rfl hd
  | @sent e line hw hw' hcount hblocks =>
      by_cases hed : d = e
      · subst hed
        rw [Function.update_self]
        exact ⟨rfl, hw, hw', hcount, hblocks, rfl⟩
      · exact absurd (Function.update_of_ne hed ..) hd
  | hears => exact absurd rfl hd
  | finished => exact absurd rfl hd

/-- The turn depends on what the speakers see. -/
theorem Turn.congr (h : P.Turn s blocks stored rest) (hwaits : ∀ d, P.Waits s d → P.Waits s' d)
    (htells : ∀ d line, (d.other, line) ∈ rest → P.Tells s d line → P.Tells s' d line)
    (hhears : ∀ d line, P.Hears s blocks d line → P.Hears s' blocks d line)
    (hblock : ∀ d, P.HasBlock s blocks d → P.HasBlock s' blocks d)
    (hdone : ∀ d, s.next d = .terminado ∨ s.next d = .done → s'.next d = s.next d) (hcount : s'.count = s.count)
    (hlines : s'.lines = s.lines) (hprinted : s'.printed = s.printed) :
    P.Turn s' blocks stored rest := by
  cases h with
  | tells hl ht hw hn hb =>
      rw [← hlines]
      refine .tells (by rwa [hlines]) (htells _ _ ?_ ht) (hwaits _ hw) ?_ fun d => hblock d (hb d)
      · rw [talk_cons]
        exact List.mem_cons_self
      · rw [hcount, hprinted, hn]
  | sent hw hw' hn hb =>
      rw [← hlines]
      refine .sent (hwaits _ hw) (hwaits _ hw') ?_ fun d => hblock d (hb d)
      rw [hcount, hprinted, hn]
  | hears hh hw hb =>
      rw [← hlines]
      exact .hears (hhears _ _ hh) (hwaits _ hw) (hblock _ hb)
  | finished hd hw => exact .finished (by rwa [hdone _ hd]) (hwaits _ hw)

/-! ### Steps that leave a speaker alone -/

theorem Waits.keeps (h : P.Waits s d) (hk : P.Keeps X s.kernel s'.kernel) (hX : .buff2 d ∉ X)
    (hnext : s'.next d = s.next d) : P.Waits s' d := by
  rw [Waits, hnext, hk.first hX (show 0 < TALK_BUFFER by decide)]
  exact h

theorem HasBlock.keeps (h : P.HasBlock s blocks d) (hk : P.Keeps X s.kernel s'.kernel)
    (hX : .buff2 d ∉ X) : P.HasBlock s' blocks d := by
  rw [HasBlock, hk.bytes hX (show TALK_BUFFER ≤ TALK_BUFFER from le_rfl)]
  exact h

theorem Tells.keeps (h : P.Tells s d line) (hline : IsLine line) (hk : P.Keeps X s.kernel s'.kernel)
    (hX : .buff d ∉ X) (hnext : s'.next d = s.next d) : P.Tells s' d line := by
  refine h.imp hnext.trans fun ⟨hsend, hstr⟩ => ⟨hnext.trans hsend, hstr.congr fun i hi => ?_⟩
  exact hk.char _ hX _ (within_start (.buff d) (Nat.lt_of_le_of_lt hi hline.fits))

theorem Hears.keeps (h : P.Hears s blocks d line) (hk : P.Keeps X s.kernel s'.kernel)
    (hX : .buff2 d ∉ X) (hnext : s'.next d = s.next d) (hread : s'.read = s.read)
    (hcount : s'.count = s.count) (hprinted : s'.printed = s.printed) :
    P.Hears s' blocks d line where
  block := by
    rw [hk.bytes hX (show TALK_BUFFER ≤ TALK_BUFFER from le_rfl)]
    exact h.block
  stage := by
    rw [hnext, hread, hcount, hprinted, hk.first hX (show 0 < TALK_BUFFER by decide)]
    exact h.stage

/-! ## The invariant

What is printed and what is outstanding make up the transcript, whoever has the word. -/

/-- What is printed behind the dialogue. -/
def ending (s : TalkState) : List TalkLine := if s.next .ella = .done then [] else [.terminado .ella]

/-- The printed lines followed by the outstanding ones are the transcript. -/
structure Kept (P : TestPipes) (start : Speaker → List UInt8) (s : TalkState) : Prop where
  layout : P.Layout
  turn : ∃ blocks stored rest past, P.Carries s.kernel stored ∧ P.Turn s blocks stored rest ∧
    dialogue = past ++ rest ∧
    s.printed ++ hear blocks s.printed.length rest ++ ending s = transcript start

theorem ending_of_ne (h : s.next .ella ≠ .done) : ending s = [.terminado .ella] := if_neg h

/-- A speaker that goes on within its program. -/
theorem done_update {x y : TalkStep} (hd : s.next d = x) (hx : x ≠ .done) (hy : y ≠ .done) :
    Function.update s.next d y .ella = .done ↔ s.next .ella = .done := by
  by_cases he : .ella = d
  · subst he
    rw [Function.update_self, hd]
    exact iff_of_false hy hx
  · rw [Function.update_of_ne he]

variable {start : Speaker → List UInt8}

theorem Started.kept (h : P.Started start s) : P.Kept start s := by
  refine ⟨h.layout, start, fun _ => [], dialogue, [], ⟨h.found, h.pipes, h.cells⟩, ?_, rfl, ?_⟩
  · have hlines : s.lines .el = (script .el).head (by decide) :: (script .el).tail := by
      rw [h.lines]
      rfl
    have hturn : P.Turn s start (fun _ => []) (talk .el ((script .el).head (by decide) ::
        (script .el).tail) (s.lines .ella)) := by
      refine .tells hlines (.inl h.el) (.inl h.ella) ?_ fun d => ?_
      · rw [h.count, h.printed]
        rfl
      · rw [HasBlock, h.blocks d]
    rw [h.lines] at hturn
    exact hturn
  · rw [ending_of_ne (by rw [h.ella]; decide), h.printed]
    rfl

/-- A step after which the same lines are outstanding. -/
theorem Kept.of_turn (h : P.Kept start s) (hprinted : s'.printed = s.printed)
    (hdone : s'.next .ella = .done ↔ s.next .ella = .done)
    (hturn : ∀ blocks stored rest, P.Carries s.kernel stored → P.Turn s blocks stored rest →
      (∀ x ∈ rest, IsLine x.2) → ∃ stored', P.Carries s'.kernel stored' ∧ P.Turn s' blocks stored' rest) :
    P.Kept start s' := by
  obtain ⟨hL, blocks, stored, rest, past, hc, ht, hpast, hlog⟩ := h
  have hlines : ∀ x ∈ rest, IsLine x.2 := fun x hx =>
    dialogue_isLine x (hpast ▸ List.mem_append_right past hx)
  obtain ⟨stored', hc', ht'⟩ := hturn blocks stored rest hc ht hlines
  refine ⟨hL, blocks, stored', rest, past, hc', ht', hpast, ?_⟩
  have hending : ending s' = ending s := if_congr hdone rfl rfl
  rwa [hprinted, hending]

theorem Keeps.refl (h : P.Found k) : P.Keeps [] k k :=
  ⟨h, fun _ _ => rfl, fun _ => rfl, fun _ _ _ _ => rfl⟩

/-- A step that writes nothing that the speakers see. -/
theorem Turn.keeps (h : P.Turn s blocks stored rest) (hlines : ∀ x ∈ rest, IsLine x.2)
    (hk : P.Keeps [] s.kernel k') : P.Turn { s with kernel := k' } blocks stored rest :=
  h.congr (fun _ hw => hw.keeps hk List.not_mem_nil rfl)
    (fun _ _ hmem ht => ht.keeps (hlines _ hmem) hk List.not_mem_nil rfl)
    (fun _ _ hh => hh.keeps hk List.not_mem_nil rfl rfl rfl rfl)
    (fun _ hb => hb.keeps hk List.not_mem_nil) (fun _ _ => rfl) rfl rfl rfl

theorem Kept.strcpy {ls : List (List UInt8)} (h : P.Kept start s) (hd : s.next d = .strcpy)
    (hline : s.lines d = line :: ls)
    (hcopy : BasicKernel.strcpy s.kernel (P.start (.buff d)) line = .ok k') :
    P.Kept start { s with kernel := k', next := Function.update s.next d .send } := by
  refine h.of_turn rfl (done_update hd (by decide) (by decide)) fun blocks stored rest hc ht hlines =>
    ⟨stored, ?_⟩
  obtain ⟨line', ls', hline', -, hw, hn, hb, rfl, rfl⟩ := ht.of_tells (.inl hd)
  obtain ⟨rfl, rfl⟩ := List.cons.inj (hline.symm.trans hline')
  have hfine : IsLine line := hlines (d.other, line) (by rw [talk_cons]; exact List.mem_cons_self)
  obtain ⟨char, rfl, hframe, hstr⟩ := strcpy_inv hcopy
  have hk : P.Keeps [.buff d] s.kernel { s.kernel with char := char } := by
    refine .of_char h.layout hc.found fun a ha => hframe a ?_
    rintro i hi rfl
    exact ha (.buff d) (by simp) (within_start (.buff d) (Nat.lt_of_le_of_lt hi hfine.fits))
  refine ⟨hc.keeps hk (by simp), .tells hline (.inr ⟨?_, hstr hfine.ended⟩) (hw.keeps hk (by simp) ?_)
    hn fun e => (hb e).keeps hk (by simp)⟩
  · exact Function.update_self ..
  · exact Function.update_of_ne d.other_ne ..

theorem Kept.send {fuel : Nat} (h : P.Kept start s) (hd : s.next d = .send)
    (hwrite : writeToPipe fuel s.kernel (P.name d.other) (P.start (.buff d)) = .ok k') :
    P.Kept start { s with
      kernel := k'
      lines := Function.update s.lines d (s.lines d).tail
      next := Function.update s.next d .clear } := by
  refine h.of_turn rfl (done_update hd (by decide) (by decide)) fun blocks stored rest hc ht hlines => ?_
  -- The speaker holds its line, and the pipe is empty.
  obtain ⟨line, ls, hline, htells, hw, hn, hb, rfl, rfl⟩ := ht.of_tells (.inr hd)
  rw [talk_cons] at hlines ⊢
  have hfine : IsLine line := hlines _ List.mem_cons_self
  have hstr : s.kernel.IsString (P.start (.buff d)) line := by
    rcases htells with hcopy | ⟨-, hstr⟩
    · exact absurd (hcopy.symm.trans hd) (by decide)
    · exact hstr
  obtain ⟨hk, hc', -⟩ := hc.send h.layout hfine rfl hstr hwrite
  refine ⟨_, hc', ?_⟩
  -- The line is in the pipe of the other one, and this speaker now waits.
  have hother : (Function.update s.next d .clear) d.other = s.next d.other :=
    Function.update_of_ne d.other_ne ..
  have hturn : P.Turn { s with
      kernel := k'
      lines := Function.update s.lines d (s.lines d).tail
      next := Function.update s.next d .clear } blocks _
      ((d.other, line) :: talk d.other ((Function.update s.lines d (s.lines d).tail) d.other)
        ((Function.update s.lines d (s.lines d).tail) d.other.other)) :=
    .sent (hw.keeps hk (by simp) hother)
      (.inl (by rw [d.other_other]; exact Function.update_self ..)) hn
      fun e => (hb e).keeps hk (by simp)
  have htail : (s.lines d).tail = ls := by rw [hline, List.tail_cons]
  rw [Function.update_of_ne d.other_ne, d.other_other, Function.update_self, htail] at hturn
  rwa [htail]

theorem Kept.clear (h : P.Kept start s) (hd : s.next d = .clear)
    (hset : s.kernel.setChar (P.start (.buff2 d)) 0 = .ok k') :
    P.Kept start { s with kernel := k', next := Function.update s.next d .receive } := by
  refine h.of_turn rfl (done_update hd (by decide) (by decide)) fun blocks stored rest hc ht hlines =>
    ⟨stored, ?_⟩
  rw [Kernel.setChar_of_ne (h.layout.ne _)] at hset
  obtain rfl := Except.ok.inj hset
  -- The store is in the speaker's own buffer.
  have hk : P.Keeps [.buff2 d] s.kernel { s.kernel with
      char := Function.update s.kernel.char (P.start (.buff2 d)) 0 } := by
    refine .of_char h.layout hc.found fun a ha => Function.update_of_ne ?_ _ _
    rintro rfl
    exact ha (.buff2 d) (by simp) (within_start (.buff2 d) (show 0 < TALK_BUFFER by decide))
  have hnext : ∀ {e}, e ≠ d → (Function.update s.next d .receive) e = s.next e :=
    fun hne => Function.update_of_ne hne ..
  refine ⟨hc.keeps hk (by simp), ht.congr ?_ ?_ ?_ ?_ ?_ rfl rfl rfl⟩
  -- Who waits goes on waiting, this speaker with its buffer empty now.
  · intro e hw
    by_cases hed : e = d
    · subst hed
      exact .inr ⟨Function.update_self .., Function.update_self ..⟩
    · exact hw.keeps hk (by simp [hed]) (hnext hed)
  -- This speaker is in none of the other stages.
  · intro e line hmem htells
    have hed : e ≠ d := by
      rintro rfl
      rcases htells.stage_eq with hs | hs <;> exact absurd (hd.symm.trans hs) (by decide)
    exact htells.keeps (hlines _ hmem) hk (by simp) (hnext hed)
  · intro e line hh
    have hed : e ≠ d := by
      rintro rfl
      rcases hh.stage_eq with hs | hs | hs | hs <;> exact absurd (hd.symm.trans hs) (by decide)
    exact hh.keeps hk (by simp [hed]) (hnext hed) rfl rfl rfl
  -- The first byte of the buffer is not what is remembered of it.
  · intro e hb
    by_cases hed : e = d
    · subst hed
      refine Eq.trans ?_ hb
      show (Kernel.bytes _ _ (199 + 1)).tail = (Kernel.bytes _ _ (199 + 1)).tail
      rw [Kernel.tail_bytes, Kernel.tail_bytes]
      refine Kernel.bytes_congr fun i _ => Function.update_of_ne ?_ _ _
      rw [Nat.add_assoc]
      exact Nat.ne_of_gt (Nat.lt_add_of_pos_right (Nat.add_pos_left Nat.one_pos i))
    · exact hb.keeps hk (by simp [hed])
  · intro e hdone
    have hed : e ≠ d := by
      rintro rfl
      rcases hdone with hs | hs <;> exact absurd (hd.symm.trans hs) (by decide)
    exact hnext hed

/-- The first byte of a line that has arrived. -/
theorem first_ne_zero {p : Addr} {block : List UInt8} (hline : IsLine line)
    (h : k.bytes p TALK_BUFFER = overlay line block) : k.char p ≠ 0 := by
  obtain ⟨c, cs, rfl⟩ := List.exists_cons_of_ne_nil hline.ne_nil
  rw [show TALK_BUFFER = 199 + 1 from rfl, Kernel.bytes_succ, overlay, List.cons_append] at h
  rw [(List.cons.inj h).1]
  exact fun hzero => hline.ended (hzero ▸ List.mem_cons_self)

theorem Kept.receive {fuel : Nat} (h : P.Kept start s) (hd : s.next d = .receive)
    (hread : readFromPipe fuel s.kernel (P.name d) (P.start (.buff2 d)) = .ok k') :
    P.Kept start { s with kernel := k' } := by
  refine h.of_turn rfl Iff.rfl fun blocks stored rest hc ht hlines => ?_
  by_cases hempty : stored d = []
  · have hk := hc.receive_empty hempty hread
    exact ⟨stored, hc.keeps hk fun _ => List.not_mem_nil, ht.keeps hlines hk⟩
  · obtain ⟨hstored, hw, hw', hn, hb, rfl⟩ := ht.of_stored hempty
    have hfine : IsLine (stored d) := hlines _ List.mem_cons_self
    obtain ⟨hk, hc', hbytes, -⟩ := hc.receive h.layout hfine rfl hread
    refine ⟨_, hc', ?_⟩
    rw [hstored, Function.update_idem, Function.update_eq_self_iff.mpr rfl]
    refine .hears ⟨?_, .inl ⟨.inl ⟨hd, ?_⟩, hn⟩⟩ (hw'.keeps hk (by simp [d.other_ne]) rfl)
      ((hb _).keeps hk (by simp [d.other_ne]))
    · rw [hbytes, Function.update_self]
      exact overlay_congr hfine.ne_nil (hb d)
    · exact first_ne_zero hfine hbytes

/-! ### Counting and printing

The count is read, raised and stored in separate steps, and nobody else counts in between. -/

/-- A step of a speaker that has heard a line. -/
theorem Kept.of_hears {x y : TalkStep} {read : Speaker → Int} {count : Int} (h : P.Kept start s)
    (hd : s.next d = x) (hx : x ≠ .done) (hy : y ≠ .done)
    (hheard : s.next d = .receive ∧ s.kernel.char (P.start (.buff2 d)) ≠ 0 ∨ s.next d = .count ∨
      s.next d = .store ∨ s.next d = .print)
    (hstage : ∀ blocks line, P.Hears s blocks d line →
      (y = .receive ∧ s.kernel.char (P.start (.buff2 d)) ≠ 0 ∨ y = .count) ∧ count = s.printed.length ∨
        y = .store ∧ read d = s.printed.length ∨
        y = .print ∧ read d = s.printed.length ∧ count = s.printed.length + 1) :
    P.Kept start { s with next := Function.update s.next d y, read := read, count := count } := by
  refine h.of_turn rfl (done_update hd hx hy) fun blocks stored rest hc ht _ => ⟨stored, hc, ?_⟩
  obtain ⟨line, hh, hw, hb, rfl, rfl⟩ := ht.of_hears hheard
  have hk := Keeps.refl hc.found
  have hother : Function.update s.next d y d.other = s.next d.other := Function.update_of_ne d.other_ne ..
  refine .hears ⟨hh.block, ?_⟩ (hw.keeps hk List.not_mem_nil hother) (hb.keeps hk List.not_mem_nil)
  dsimp only
  rw [Function.update_self]
  exact hstage blocks line hh

theorem Kept.heard {c : UInt8} (h : P.Kept start s) (hd : s.next d = .receive)
    (hload : load s.kernel.char (P.start (.buff2 d)) = .ok c) (hc : c ≠ 0) :
    P.Kept start { s with next := Function.update s.next d .count } := by
  rw [load_of_ne (h.layout.ne _)] at hload
  obtain rfl := Except.ok.inj hload
  refine h.of_hears hd (by decide) (by decide) (.inl ⟨hd, hc⟩) fun blocks line hh => ?_
  rcases hh.stage with ⟨-, hcount⟩ | ⟨hs, -⟩ | ⟨hs, -⟩
  · exact .inl ⟨.inr rfl, hcount⟩
  all_goals exact absurd (hd.symm.trans hs) (by decide)

theorem Kept.count (h : P.Kept start s) (hd : s.next d = .count) :
    P.Kept start { s with
      read := Function.update s.read d s.count
      next := Function.update s.next d .store } := by
  refine h.of_hears hd (by decide) (by decide) (.inr (.inl hd)) fun blocks line hh => ?_
  rcases hh.stage with ⟨-, hcount⟩ | ⟨hs, -⟩ | ⟨hs, -⟩
  · exact .inr (.inl ⟨rfl, by rw [Function.update_self, hcount]⟩)
  all_goals exact absurd (hd.symm.trans hs) (by decide)

theorem Kept.store (h : P.Kept start s) (hd : s.next d = .store) :
    P.Kept start { s with count := s.read d + 1, next := Function.update s.next d .print } := by
  refine h.of_hears hd (by decide) (by decide) (.inr (.inr (.inl hd))) fun blocks line hh => ?_
  rcases hh.stage with ⟨⟨hs, -⟩ | hs, -⟩ | ⟨-, hread⟩ | ⟨hs, -⟩
  · exact absurd (hd.symm.trans hs) (by decide)
  · exact absurd (hd.symm.trans hs) (by decide)
  · exact .inr (.inr ⟨rfl, hread, by rw [hread]⟩)
  · exact absurd (hd.symm.trans hs) (by decide)

theorem Kept.print (h : P.Kept start s) (hd : s.next d = .print) :
    P.Kept start { s with
      printed := s.printed ++ [.heard (s.read d) d (s.kernel.bytes (P.start (.buff2 d)) TALK_BUFFER)]
      next := Function.update s.next d (if s.lines d = [] then .terminado else .strcpy) } := by
  obtain ⟨hL, blocks, stored, rest, past, hc, ht, hpast, hlog⟩ := h
  obtain ⟨line, hh, hw, hb, rfl, rfl⟩ := ht.of_hears (.inr (.inr (.inr hd)))
  -- The number that was read is that of the lines printed before.
  obtain ⟨hread, hcount⟩ : s.read d = s.printed.length ∧ s.count = s.printed.length + 1 := by
    rcases hh.stage with ⟨⟨hs, -⟩ | hs, -⟩ | ⟨hs, -⟩ | ⟨-, hstage⟩
    on_goal 4 => exact hstage
    all_goals exact absurd (hd.symm.trans hs) (by decide)
  rw [hear, List.append_cons] at hlog
  refine ⟨hL, Function.update blocks d (overlay line (blocks d)), fun _ => [],
    talk d (s.lines d) (s.lines d.other), past ++ [(d, line)], hc, ?_, ?_, ?_⟩
  · have hk := Keeps.refl hc.found
    have hother : ∀ n, Function.update s.next d n d.other = s.next d.other :=
      fun n => Function.update_of_ne d.other_ne ..
    cases hlines : s.lines d with
    | nil =>
        -- the last line of the dialogue is for `ella`
        rw [hlines, talk_nil] at hpast
        obtain rfl := dialogue_last hpast
        rw [talk_nil]
        have hdone : Function.update s.next .ella (if ([] : List (List UInt8)) = [] then .terminado
            else .strcpy) .ella = .terminado := (Function.update_self ..).trans (if_pos rfl)
        exact .finished (.inl hdone) (hw.keeps hk List.not_mem_nil (hother .terminado))
    -- With a line left it is this speaker's turn to tell.
    | cons l ls =>
        refine .tells hlines (.inl ?_) (hw.keeps hk List.not_mem_nil (hother .strcpy)) ?_ fun e => ?_
        · exact (Function.update_self ..).trans (if_neg (List.cons_ne_nil l ls))
        · rw [List.length_append, List.length_singleton, Int.natCast_add, hcount]
          rfl
        · by_cases hed : e = d
          · subst hed
            rw [HasBlock, Function.update_self, hh.block]
          · obtain rfl := (d.eq_or_other e).resolve_left hed
            rw [HasBlock, Function.update_of_ne d.other_ne]
            exact hb
  · rw [List.append_assoc]
    exact hpast
  -- Neither stage is the end, so that nothing but the line is added.
  · have hstep : (if s.lines d = [] then TalkStep.terminado else .strcpy) ≠ .done := by
      split <;> decide
    have hending : ending { s with
        printed := s.printed ++ [.heard (s.read d) d (s.kernel.bytes (P.start (.buff2 d)) TALK_BUFFER)]
        next := Function.update s.next d (if s.lines d = [] then .terminado else .strcpy) } = ending s :=
      if_congr (done_update hd (by decide) hstep) rfl rfl
    rw [← hlog, hending, hread, hh.block, List.length_append]
    rfl

/-- Only `testPipes2` comes behind its last answer, and then the dialogue was printed. -/
theorem Turn.of_terminado (h : P.Turn s blocks stored rest)
    (hd : s.next d = .terminado ∨ s.next d = .done) : d = .ella ∧ stored = (fun _ => []) ∧ rest = [] ∧ P.Waits s .el := by
  have hwait : ¬ P.Waits s d := by
    intro hw
    rcases hw.stage with h | h <;> rcases hd with h' | h' <;> exact absurd (h.symm.trans h') (by decide)
  cases h with
  | @tells t line ls hlines htells hw =>
      obtain rfl | rfl := t.eq_or_other d
      · rcases htells.stage_eq with h | h <;> rcases hd with h' | h' <;>
          exact absurd (h.symm.trans h') (by decide)
      · exact absurd hw hwait
  | @sent e line hw hw' =>
      obtain rfl | rfl := e.eq_or_other d
      · exact absurd hw hwait
      · exact absurd hw' hwait
  | @hears e line hh hw =>
      obtain rfl | rfl := e.eq_or_other d
      · rcases hh.stage_eq with h | h | h | h <;> rcases hd with h' | h' <;>
          exact absurd (h.symm.trans h') (by decide)
      · exact absurd hw hwait
  | finished _ hw =>
      obtain rfl | rfl := Speaker.el.eq_or_other d
      · exact absurd hw hwait
      · exact ⟨rfl, rfl, rfl, hw⟩

theorem Kept.terminado (h : P.Kept start s) (hd : s.next d = .terminado) :
    P.Kept start { s with
      printed := s.printed ++ [.terminado d]
      next := Function.update s.next d .done } := by
  obtain ⟨hL, blocks, stored, rest, past, hc, ht, hpast, hlog⟩ := h
  obtain ⟨rfl, rfl, rfl, hw⟩ := ht.of_terminado (.inl hd)
  have hk := Keeps.refl hc.found
  have hdone : Function.update s.next .ella .done .ella = .done := Function.update_self ..
  have hending : ending { s with
      printed := s.printed ++ [.terminado .ella]
      next := Function.update s.next .ella .done } = [] := if_pos hdone
  have hother : Function.update s.next .ella .done .el = s.next .el :=
    Function.update_of_ne (show Speaker.el ≠ .ella by decide) ..
  have hturn : P.Turn { s with
      printed := s.printed ++ [.terminado .ella]
      next := Function.update s.next .ella .done } blocks (fun _ => []) [] :=
    .finished (.inr hdone) (hw.keeps hk List.not_mem_nil hother)
  refine ⟨hL, blocks, _, [], past, hc, hturn, hpast, ?_⟩
  rw [ending_of_ne (by rw [hd]; decide), hear, List.append_nil] at hlog
  rw [hending, hear, List.append_nil, List.append_nil]
  exact hlog

theorem Kept.step (h : P.Kept start s) (hstep : P.Step s s') : P.Kept start s' := by
  cases hstep with
  | strcpy d hd hline hcopy => exact h.strcpy hd hline hcopy
  | send d hd hwrite => exact h.send hd hwrite
  | clear d hd hset => exact h.clear hd hset
  | receive d hd _ hread => exact h.receive hd hread
  | heard d hd hload hc => exact h.heard hd hload hc
  | count d hd => exact h.count hd
  | store d hd => exact h.store hd
  | print d hd => exact h.print hd
  | terminado d hd => exact h.terminado hd
  | other hspared =>
      refine h.of_turn rfl Iff.rfl fun blocks stored rest hc ht hlines => ⟨stored, ?_, ?_⟩
      · exact hc.keeps hspared.keeps fun _ => List.not_mem_nil
      · exact ht.keeps hlines hspared.keeps

theorem Started.kept_reachable (hs : Reachable (P.Started start) P.Step s) : P.Kept start s :=
  hs.invariant (fun _ h => h.kept) fun _ _ _ hk hstep => hk.step hstep

/-! ## The conversation goes on

A measure of what is left to do goes down with every step of a speaker who has the word, until the
end. -/

/-- What the calls need to come to an end: a sound kernel in which the two processes exist, and names outside
the areas that end in the pid of the reader. -/
structure Live (P : TestPipes) (pid : Speaker → Int) (k : Kernel) : Prop where
  sound : ∃ V, Rep k V ∧ V.Ok
  exist : ∀ d, ∃ state, k.ProcessIs (pid d) state
  named : ∀ d, k.IsName (P.name d) (pid d.other, pid d)
  outside : ∀ d i, i < NAME_SIZE → ∀ x, ¬ P.Within x (P.name d + i)

variable {pid : Speaker → Int}

theorem Live.receiver (h : P.Live pid k) (d : Speaker) :
    Returns (getReceiverPid · k (P.name d)) (pid d) := by
  have hname := h.named d
  have hpid := getReceiverPid_name hname.ne hname.isString
  rwa [Int.toNat_of_nonneg hname.pids.2.1] at hpid

/-- The names stay when nothing outside the areas changes. -/
theorem Live.of_outside (h : P.Live pid k) (hsound : ∃ V, Rep k' V ∧ V.Ok)
    (hexist : ∀ d, ∃ state, k'.ProcessIs (pid d) state)
    (hout : ∀ a, (∀ x, ¬ P.Within x a) → k'.char a = k.char a) : P.Live pid k' where
  sound := hsound
  exist := hexist
  named d := by
    have hname := h.named d
    refine ⟨hname.ne, hname.pids, hname.isString.congr fun i hi => hout _ (h.outside d i ?_)⟩
    exact Nat.lt_of_le_of_lt hi (length_pipeName_int hname.pids.1.2 hname.pids.2.2)
  outside := h.outside

/-- Stores into areas change no process. -/
theorem Live.of_rep (h : P.Live pid k) (hrep : ∀ V, Rep k V → Rep k' V)
    (hout : ∀ a, (∀ x, ¬ P.Within x a) → k'.char a = k.char a) : P.Live pid k' := by
  obtain ⟨V, hr, hok⟩ := h.sound
  refine h.of_outside ⟨V, hrep V hr, hok⟩ (fun d => ?_) hout
  obtain ⟨state, hstate⟩ := h.exist d
  exact ⟨state, ((hrep V hr).processIs_iff hok).mpr ((hr.processIs_iff hok).mp hstate)⟩

/-- A message wakes the reader, and no process goes away. -/
theorem Live.writeToPipe {fuel : Nat} {name buff : Addr} (h : P.Live pid k)
    (hrun : BasicKernel.writeToPipe fuel k name buff = .ok k')
    (hout : ∀ a, (∀ x, ¬ P.Within x a) → k'.char a = k.char a) : P.Live pid k' := by
  obtain ⟨V, hr, hok⟩ := h.sound
  obtain ⟨V', hwake, hr', hok'⟩ := hr.writeToPipe_inv hok hrun
  refine h.of_outside ⟨V', hr', hok'⟩ (fun d => ?_) hout
  obtain ⟨state, hstate⟩ := h.exist d
  have hstate := (hr.processIs_iff hok).mp hstate
  rcases hwake with rfl | ⟨receiver, -, hwake⟩
  · exact ⟨state, (hr'.processIs_iff hok').mpr hstate⟩
  · obtain ⟨-, -, -, -, hprocesses⟩ := Rep.wakeReceiver hwake hr hok
    rcases hprocesses (pid d) with hsame | ⟨-, hready⟩
    · exact ⟨state, (hr'.processIs_iff hok').mpr (hsame.trans hstate)⟩
    · exact ⟨_, (hr'.processIs_iff hok').mpr hready⟩

theorem strcpy_returns (src : List UInt8) {k : Kernel} {dest : Addr} (h : dest ≠ NULL) :
    ∃ k', BasicKernel.strcpy k dest src = .ok k' := by
  induction src generalizing k dest with
  | nil => exact ⟨_, Kernel.setChar_of_ne h 0⟩
  | cons c src ih =>
      obtain ⟨k', hk'⟩ := ih (k := { k with char := Function.update k.char dest c }) (Nat.succ_ne_zero dest)
      refine ⟨k', ?_⟩
      rw [BasicKernel.strcpy, Kernel.setChar_of_ne h]
      exact hk'

/-- How many of its steps a speaker has left before it sends or waits, when a line has arrived or not. -/
def stepsLeft (arrived : Bool) : TalkStep → Nat
  | .clear => 8
  | .receive => if arrived then 6 else 7
  | .count => 5
  | .store => 4
  | .print => 3
  | .strcpy => 2
  | .send | .terminado => 1
  | .done => 0

def effort (P : TestPipes) (s : TalkState) (d : Speaker) : Nat :=
  stepsLeft (s.kernel.char (P.start (.buff2 d)) != 0) (s.next d)

/-- The lines that were not sent, and the steps of the speakers. -/
def rank (P : TestPipes) (s : TalkState) : Nat :=
  10 * ((s.lines .el).length + (s.lines .ella).length) + P.effort s .el + P.effort s .ella

/-- A step of one speaker. -/
theorem rank_lt (hnext : s'.next d.other = s.next d.other) (hlines : s'.lines d.other = s.lines d.other)
    (hfirst : s'.kernel.char (P.start (.buff2 d.other)) = s.kernel.char (P.start (.buff2 d.other)))
    (hlt : 10 * (s'.lines d).length + P.effort s' d < 10 * (s.lines d).length + P.effort s d) :
    P.rank s' < P.rank s := by
  have hother : P.effort s' d.other = P.effort s d.other := by rw [effort, effort, hnext, hfirst]
  unfold rank
  cases d <;> simp only [Speaker.other] at hlines hother <;> rw [hlines, hother] <;> omega

/-- Some step brings the end nearer. -/
def Advances (P : TestPipes) (pid : Speaker → Int) (s : TalkState) : Prop :=
  ∃ s', P.Step s s' ∧ P.Live pid s'.kernel ∧ P.rank s' < P.rank s

/-- A step that sends nothing. -/
theorem Advances.of_next {x y : TalkStep} {read : Speaker → Int} {count : Int} {printed : List TalkLine}
    (hstep : P.Step s { s with
      kernel := k', next := Function.update s.next d y, read := read, count := count, printed := printed })
    (hlive : P.Live pid k') (hd : s.next d = x)
    (hfirst : k'.char (P.start (.buff2 d.other)) = s.kernel.char (P.start (.buff2 d.other)))
    (hlt : stepsLeft (k'.char (P.start (.buff2 d)) != 0) y
      < stepsLeft (s.kernel.char (P.start (.buff2 d)) != 0) x) : P.Advances pid s := by
  refine ⟨_, hstep, hlive, rank_lt (d := d) (Function.update_of_ne d.other_ne ..) rfl hfirst ?_⟩
  refine Nat.add_lt_add_left ?_ _
  rw [effort, effort, hd]
  dsimp only
  rwa [Function.update_self]

/-- A step that changes no memory. -/
theorem Advances.of_same {x y : TalkStep} {read : Speaker → Int} {count : Int} {printed : List TalkLine}
    (hstep : P.Step s { s with
      next := Function.update s.next d y, read := read, count := count, printed := printed })
    (hlive : P.Live pid s.kernel) (hd : s.next d = x)
    (hlt : ∀ arrived, stepsLeft arrived y < stepsLeft arrived x) : P.Advances pid s :=
  .of_next hstep hlive hd rfl (hlt _)

theorem Kept.advances_strcpy (h : P.Kept start s) (hlive : P.Live pid s.kernel) (hd : s.next d = .strcpy)
    {ls : List (List UInt8)} (hline : s.lines d = line :: ls) (hfine : IsLine line) : P.Advances pid s := by
  obtain ⟨k', hcopy⟩ := strcpy_returns line (k := s.kernel) (h.layout.ne (.buff d))
  obtain ⟨char, rfl, hframe, -⟩ := strcpy_inv hcopy
  have hkept : ∀ a, ¬ P.Within (.buff d) a → char a = s.kernel.char a := by
    intro a ha
    refine hframe a ?_
    rintro i hi rfl
    exact ha (within_start (.buff d) (Nat.lt_of_le_of_lt hi hfine.fits))
  have hfirst : ∀ e, char (P.start (.buff2 e)) = s.kernel.char (P.start (.buff2 e)) := fun e =>
    hkept _ (h.layout.not_within (x := .buff2 e) (by simp) (show 0 < TALK_BUFFER by decide))
  refine .of_next (.strcpy d hd hline hcopy) (hlive.of_rep (fun V hr => hr.unseen rfl hr.owns)
    fun a ha => hkept a (ha _)) hd (hfirst _) ?_
  exact show 1 < 2 by decide

theorem Kept.advances_send (h : P.Kept start s) (hlive : P.Live pid s.kernel) (hd : s.next d = .send)
    (hc : P.Carries s.kernel fun _ => []) {ls : List (List UInt8)} (hline : s.lines d = line :: ls)
    (hfine : IsLine line) (hstr : s.kernel.IsString (P.start (.buff d)) line) : P.Advances pid s := by
  obtain ⟨V, hr, hok⟩ := hlive.sound
  obtain ⟨state, hstate⟩ := hlive.exist d.other
  obtain ⟨p, hp, hpid, -⟩ := hok.toNumbered.processState_some.mp ((hr.processIs_iff hok).mp hstate)
  obtain ⟨r, w, hholds⟩ := hc.pipes d.other
  have hapart := hc.apart h.layout (x := .buff d) (d := d.other) (by simp) hfine.fits
  have hreceiver := hlive.receiver d.other
  rw [← hpid] at hreceiver
  obtain ⟨k', hret⟩ := hholds.writeToPipe_returns hr hok hp (hc.found.getPipe d.other) hreceiver
    (h.layout.ne _) hstr hapart
  obtain ⟨fuel, hrun⟩ := hret.exists_fuel
  obtain ⟨hk, -, hout⟩ := hc.send h.layout hfine rfl hstr hrun
  refine ⟨_, .send d hd hrun, hlive.writeToPipe hrun hout,
    rank_lt (d := d) (Function.update_of_ne d.other_ne ..) (Function.update_of_ne d.other_ne ..)
      (hk.first (by simp) (show 0 < TALK_BUFFER by decide)) ?_⟩
  rw [effort, effort, hd]
  dsimp only
  rw [Function.update_self, Function.update_self, hline, List.tail_cons, List.length_cons]
  show 10 * ls.length + 8 < 10 * (ls.length + 1) + 1
  omega

theorem Kept.advances_clear (h : P.Kept start s) (hlive : P.Live pid s.kernel) (hd : s.next d = .clear) :
    P.Advances pid s := by
  have hset := Kernel.setChar_of_ne (k := s.kernel) (h.layout.ne (.buff2 d)) 0
  have hne : P.start (.buff2 d.other) ≠ P.start (.buff2 d) := by
    intro heq
    have hwithin := within_start (P := P) (.buff2 d.other) (show 0 < TALK_BUFFER by decide)
    refine h.layout.not_within (x := .buff2 d) (y := .buff2 d.other) (i := 0) ?_
      (show 0 < TALK_BUFFER by decide) ?_
    · simpa using d.other_ne.symm
    · rwa [← heq]
  refine .of_next (.clear d hd hset) (hlive.of_rep (fun V hr => hr.setChar hset) fun a ha => ?_) hd
    (Function.update_of_ne hne ..) ?_
  · refine Function.update_of_ne ?_ ..
    rintro rfl
    exact ha (.buff2 d) (within_start (.buff2 d) (show 0 < TALK_BUFFER by decide))
  · dsimp only
    rw [Function.update_self]
    exact show 7 < 8 by decide

theorem Kept.advances_receive (h : P.Kept start s) (hlive : P.Live pid s.kernel)
    (hd : s.next d = .receive) (hzero : s.kernel.char (P.start (.buff2 d)) = 0)
    (hc : P.Carries s.kernel stored) (hfine : IsLine (stored d)) : P.Advances pid s := by
  obtain ⟨r, w, hholds⟩ := hc.pipes d
  obtain ⟨c, cs, hcons⟩ := List.exists_cons_of_ne_nil hfine.ne_nil
  rw [hcons] at hholds
  have hlength : (c :: cs).length ≤ TALK_BUFFER := hcons ▸ hfine.fits.le
  have hapart := hc.apart h.layout (x := .buff2 d) (d := d) (by simp) hlength
  obtain ⟨k', -, hret, -⟩ := hholds.readFromPipe_returns (hc.found.getPipe d) (h.layout.ne _) hapart
  obtain ⟨fuel, hrun⟩ := hret.exists_fuel
  obtain ⟨hk, -, hbytes, hout⟩ := hc.receive h.layout hfine rfl hrun
  have hload : load s.kernel.char (P.start (.buff2 d)) = .ok 0 := by
    rw [load_of_ne (h.layout.ne _), hzero]
  refine ⟨_, .receive d hd hload hrun, hlive.of_rep (fun V hr => ?_) hout,
    rank_lt (d := d) rfl rfl (hk.first (by simp [d.other_ne]) (show 0 < TALK_BUFFER by decide)) ?_⟩
  · obtain ⟨found, hfound, -⟩ := bind_eq_ok.mp hrun
    obtain rfl := (hc.found.getPipe d).eq hfound
    rw [hholds.readFromPipe_eq (h.layout.ne _) hfound] at hrun
    exact hr.receiveChars hrun
  · have harrived : k'.char (P.start (.buff2 d)) ≠ 0 := first_ne_zero hfine hbytes
    refine Nat.add_lt_add_left ?_ _
    rw [effort, effort, hd, hzero, bne_iff_ne.mpr harrived]
    exact show 6 < 7 by decide

/-- As long as `testPipes2` has not ended, a speaker can go on. -/
theorem Kept.advances (h : P.Kept start s) (hlive : P.Live pid s.kernel) (hdone : s.next .ella ≠ .done) :
    P.Advances pid s := by
  obtain ⟨hL, blocks, stored, rest, past, hc, ht, hpast, -⟩ := id h
  have hlines : ∀ x ∈ rest, IsLine x.2 := fun x hx =>
    dialogue_isLine x (hpast ▸ List.mem_append_right past hx)
  -- Whose turn it is goes on, at the line of its program.
  cases ht with
  | @tells t line ls hline htells =>
      rw [talk_cons] at hlines
      have hfine : IsLine line := hlines _ List.mem_cons_self
      rcases htells with hd | ⟨hd, hstr⟩
      · exact h.advances_strcpy hlive hd hline hfine
      · exact h.advances_send hlive hd hc hline hfine hstr
  | @sent d line hw =>
      rcases hw with hd | ⟨hd, hzero⟩
      · exact h.advances_clear hlive hd
      · refine h.advances_receive hlive hd hzero hc ?_
        rw [Function.update_self]
        exact hlines _ List.mem_cons_self
  | @hears d line hh =>
      rcases hh.stage with ⟨⟨hd, hne⟩ | hd, -⟩ | ⟨hd, -⟩ | ⟨hd, -⟩
      · refine .of_next (.heard d hd (load_of_ne (hL.ne _)) hne) hlive hd rfl ?_
        rw [bne_iff_ne.mpr hne]
        exact show 5 < 6 by decide
      · exact .of_same (.count d hd) hlive hd fun _ => show 4 < 5 by decide
      · exact .of_same (.store d hd) hlive hd fun _ => show 3 < 4 by decide
      · refine .of_same (.print d hd) hlive hd fun _ => ?_
        split
        · exact show 1 < 3 by decide
        · exact show 2 < 3 by decide
  -- Only the last line of `testPipes2` is left.
  | finished hd =>
      have hd := hd.resolve_right hdone
      exact .of_same (.terminado .ella hd) hlive hd fun _ => show 0 < 1 by decide

/-- The two programs alone can bring the conversation to its end. -/
theorem Kept.exists_end (h : P.Kept start s) (hlive : P.Live pid s.kernel) :
    ∃ s', Relation.ReflTransGen P.Step s s' ∧ s'.next .ella = .done := by
  have hadvance : ∀ s, P.Kept start s ∧ P.Live pid s.kernel → s.next .ella ≠ .done →
      ∃ s', P.Step s s' ∧ (P.Kept start s' ∧ P.Live pid s'.kernel) ∧ P.rank s' < P.rank s := by
    rintro s ⟨hs, hlive⟩ hne
    obtain ⟨s', hstep, hlive', hlt⟩ := hs.advances hlive hne
    exact ⟨s', hstep, ⟨hs.step hstep, hlive'⟩, hlt⟩
  obtain ⟨s', hrun, -, hdone⟩ := exists_run_of_rank P.rank hadvance ⟨h, hlive⟩
  exact ⟨s', hrun, hdone⟩

/-- The lines are printed in the order of the dialogue, with numbers from 0 on and none missing, each over
what the buffer held before, and behind them the last line of `testPipes2`. `testPipes1` waits for a fourth
answer: it prints no last line and never ends. In a sound kernel the two programs can always go on to the
end of `testPipes2`. -/
theorem testPipes_printed (hs : Reachable (P.Started start) P.Step s) :
    s.printed <+: transcript start ∧ s.next .el ≠ .terminado ∧ s.next .el ≠ .done ∧
      (s.next .ella = .done → s.printed = transcript start) ∧
      ∀ pid, P.Live pid s.kernel → ∃ s', Relation.ReflTransGen P.Step s s' ∧ s'.next .ella = .done := by
  have hkept := Started.kept_reachable hs
  obtain ⟨-, blocks, stored, rest, -, -, hturn, -, hlog⟩ := id hkept
  rw [List.append_assoc] at hlog
  refine ⟨⟨_, hlog⟩, fun hd => ?_, fun hd => ?_, fun hd => ?_, fun pid hlive => hkept.exists_end hlive⟩
  · exact absurd (hturn.of_terminado (.inl hd)).1 (by decide)
  · exact absurd (hturn.of_terminado (.inr hd)).1 (by decide)
  · obtain ⟨-, -, rfl, -⟩ := hturn.of_terminado (.inr hd)
    rwa [hear, ending, if_pos hd, List.append_nil, List.append_nil] at hlog

/-- The third line that `testPipes2` prints ends in the end of the second. -/
example : ((hear (fun _ => List.replicate TALK_BUFFER 0) 0 dialogue).map fun
    | .heard _ _ block => block.takeWhile (· ≠ 0)
    | .terminado _ => []) = [chars "Quien es...", chars "Soy yo...", chars "Que vienes a buscar...",
      chars "A ti ....", chars "Ya es tarde ...scar...", chars "Porque...",
      chars "Porque ahora soy yo la que quiere estar sin ti ..."] := by
  rw [dialogue_eq]
  decide +kernel

/-- The pipes that the kernel keeps for two pairs are found, whatever the areas hold. -/
theorem found_of_kept {f : Pipefs} {entries : List (Nat × Int × Int)} (h : f.Kept entries)
    (hpipe : ∀ d, ∃ x, (P.pipe d, x) ∈ entries) (hname : ∀ d, P.name d = (f.kernel.pipe (P.pipe d)).name)
    (hout : ∀ e ∈ entries, ∀ i, i < NAME_SIZE → ∀ x, ¬ P.Within x ((f.kernel.pipe e.1).name + i)) :
    P.Found f.kernel := by
  intro char hchar d
  have hkept : PipeRegistry.Kept ⟨{ f.kernel with char := char }, entries.map Prod.snd⟩ f.live entries :=
    ⟨h.contract, h.list, rfl, fun e he => (h.serves e he).named.congr rfl subset_rfl fun i hi =>
      hchar _ (hout e he i hi)⟩
  obtain ⟨x, hx⟩ := hpipe d
  have hnamed := hkept.named _ hx
  rw [hname]
  exact hkept.getPipe_of_mem h.nodup hx ⟨hnamed.name_ne, hnamed.pids, hnamed.isString⟩

/-! ## A run of the two programs -/

/-- Two pipes of processes `0` and `1`, both ways. -/
def pipeSession : Except Stop (Kernel × Addr × Kernel × Kernel × Addr × Kernel × Kernel) := do
  let k ← startKernel
  let (ella, k₁) ← createPipe 40 k 0 1
  let (_, k₂) ← do_pipe 40 k 0 1
  let (el, k₃) ← createPipe 40 k₂ 1 0
  let (_, k₄) ← do_pipe 40 k₂ 1 0
  return (k, ella, k₁, k₂, el, k₃, k₄)

/-- The programs on these pipes. -/
def session : TestPipes where
  pipe | .el => 18939904 | .ella => 18927616
  name | .el => 18944000 | .ella => 18931712
  start
    | .pipe .el => 18948096
    | .pipe .ella => 18935808
    | .buff .el => 0x7000000
    | .buff2 .el => 0x7001000
    | .buff .ella => 0x7002000
    | .buff2 .ella => 0x7003000

def sessionPid : Speaker → Int
  | .el => 0
  | .ella => 1

theorem session_layout : session.Layout where
  pipes := by decide
  ne := by rintro (d | d | d) <;> cases d <;> decide
  apart x y a hx hy := by
    have hdisjoint : x = y ∨ session.start x + x.size ≤ session.start y ∨
        session.start y + y.size ≤ session.start x := by
      rcases x with d | d | d <;> rcases y with e | e | e <;> cases d <;> cases e <;> decide
    rcases hdisjoint with h | h | h
    · exact h
    · exact absurd (hx.2.trans_le (h.trans hy.1)) (Nat.lt_irrefl a)
    · exact absurd (hy.2.trans_le (h.trans hx.1)) (Nat.lt_irrefl a)

def sessionChecks (k : Kernel) (ella el : Addr) (k₂ k₄ : Kernel) : Bool :=
  k.cleanPage && (k₂.cleanPage && decide (k.pipeList = NULL ∧ ella = session.pipe .ella ∧
    el = session.pipe .el ∧ ∀ d ∈ [Speaker.el, .ella], (k₄.pipe (session.pipe d)).name = session.name d ∧
      (k₄.pipe (session.pipe d)).buffer = session.start (.pipe d)))

theorem session_checks : (do
    let (k, ella, _, k₂, el, _, k₄) ← pipeSession
    return sessionChecks k ella el k₂ k₄) = .ok true := by
  decide +kernel

/-- No name lies in an area. -/
theorem session_names (d : Speaker) (i : Nat) (hi : i < NAME_SIZE) (x : Area) :
    ¬ session.Within x (session.name d + i) := by
  have hdisjoint : session.name d + NAME_SIZE ≤ session.start x ∨
      session.start x + x.size ≤ session.name d := by
    rcases x with e | e | e <;> cases d <;> cases e <;> decide
  rintro ⟨hle, hlt⟩
  rcases hdisjoint with h | h
  · exact absurd ((Nat.add_lt_add_left hi _).trans_le (h.trans hle)) (Nat.lt_irrefl _)
  · exact absurd (hlt.trans_le (h.trans (Nat.le_add_right _ i))) (Nat.lt_irrefl _)

/-- A state from which the two programs go on to the end. -/
theorem session_started : ∃ (s : TalkState) (start : Speaker → List UInt8),
    session.Started start s ∧ session.Live sessionPid s.kernel := by
  obtain ⟨⟨k, ella, k₁, k₂, el, k₃, k₄⟩, hrun, hchecks⟩ := bind_eq_ok.mp session_checks
  have hchecks : sessionChecks k ella el k₂ k₄ = true := Except.ok.inj hchecks
  obtain ⟨hclean, hchecks⟩ := Bool.and_eq_true_iff.mp hchecks
  obtain ⟨hclean₂, hchecks⟩ := Bool.and_eq_true_iff.mp hchecks
  obtain ⟨hnull, hella, hel, hnodes⟩ := of_decide_eq_true hchecks
  -- The script is peeled off: the boot, and two pipes with their names.
  obtain ⟨k', hbooted, hrun⟩ := bind_eq_ok.mp hrun
  obtain ⟨⟨ella', k₁'⟩, hcreate₁, hrun⟩ := bind_eq_ok.mp hrun
  obtain ⟨⟨name₁, k₂'⟩, hdo₁, hrun⟩ := bind_eq_ok.mp hrun
  obtain ⟨⟨el', k₃'⟩, hcreate₂, hrun⟩ := bind_eq_ok.mp hrun
  obtain ⟨⟨name₂, k₄'⟩, hdo₂, hrun⟩ := bind_eq_ok.mp hrun
  obtain ⟨rfl, rfl, rfl, rfl, rfl, rfl, rfl⟩ : k' = k ∧ ella' = ella ∧ k₁' = k₁ ∧ k₂' = k₂ ∧ el' = el ∧
      k₃' = k₃ ∧ k₄' = k₄ := by
    simpa using Except.ok.inj hrun
  obtain ⟨V, hr, hok, hboot⟩ := (booted_of_start hbooted).rep
  obtain ⟨live, hc, -⟩ := hr.owns.live
  have hpids : IsPid 0 ∧ IsPid 1 := ⟨⟨by decide, by decide⟩, ⟨by decide, by decide⟩⟩
  -- Both creations are steps that keep what the pipes are for.
  have hstart : Pipefs.AtStart ⟨k', live, fun _ => none⟩ := ⟨hnull, hc, rfl⟩
  have hone := hstart.kept.do_pipe (x := (0, 1)) hpids.1 hpids.2 rfl (Kernel.next_of_cleanPage hclean)
    hcreate₁ hdo₁
  have htwo := hone.do_pipe (x := (1, 0)) hpids.2 hpids.1 rfl (Kernel.next_of_cleanPage hclean₂)
    hcreate₂ hdo₂
  have hnode : ∀ d, (k₄'.pipe (session.pipe d)).name = session.name d ∧
      (k₄'.pipe (session.pipe d)).buffer = session.start (.pipe d) := fun d =>
    hnodes d (by cases d <;> decide)
  have hentry : ∀ d : Speaker, (session.pipe d, (sessionPid d.other, sessionPid d)) ∈
      [] ++ [(ella', (0, 1))] ++ [(el', (1, 0))] := by
    rintro (_ | _)
    · rw [hel]
      exact List.mem_append_right _ List.mem_cons_self
    · rw [hella]
      exact List.mem_append_left _ List.mem_cons_self
  have hqueue : ∀ d : Speaker, Queues.create (Queues.create (fun _ => none) (0, 1)) (1, 0)
      (sessionPid d.other, sessionPid d) = some [] := by
    rintro (_ | _) <;> rfl
  -- Both names find their pipes, which are empty.
  have hfound : session.Found k₄' := by
    refine found_of_kept htwo (fun d => ⟨_, hentry d⟩) (fun d => (hnode d).1.symm) ?_
    intro e he i hi x
    obtain ⟨d, hd⟩ : ∃ d, e.1 = session.pipe d := by
      rcases List.mem_append.mp he with he | he
      · exact ⟨.ella, by rw [List.mem_singleton.mp he, hella]⟩
      · exact ⟨.el, by rw [List.mem_singleton.mp he, hel]⟩
    rw [hd]
    show ¬ session.Within x ((k₄'.pipe (session.pipe d)).name + i)
    rw [(hnode d).1]
    exact session_names d i hi x
  have hholds : ∀ d, ∃ r w, k₄'.PipeHolds (session.pipe d) r w [] := by
    intro d
    obtain ⟨r, w, xs, hxs, hholds⟩ := (htwo.serves _ (hentry d)).holds
    obtain rfl := Option.some.inj ((hqueue d).symm.trans hxs)
    exact ⟨r, w, hholds⟩
  have hr₄ : Rep k₄' V := (hr.do_pipe hdo₁).do_pipe hdo₂
  -- The two receivers are the first two processes.
  have hlive : session.Live sessionPid k₄' := by
    refine ⟨⟨V, hr₄, hok⟩, fun d => ?_, fun d => ?_, session_names⟩
    · obtain ⟨p, q, init, shell, htable, hp, hq, -⟩ := hboot.table
      obtain ⟨c, hc, hpid⟩ : ∃ c ∈ V.table, c.val.pid = sessionPid d := by
        rw [htable]
        cases d with
        | el => exact ⟨p, List.mem_cons_self, hp.pid⟩
        | ella => exact ⟨q, List.mem_cons_of_mem p List.mem_cons_self, hq.pid⟩
      rw [← hpid]
      exact ⟨_, (hr₄.processIs_iff hok).mpr (hok.toNumbered.processState_eq hc)⟩
    · have hnamed := (htwo.serves _ (hentry d)).named
      rw [← (hnode d).1]
      exact ⟨hnamed.name_ne, hnamed.pids, hnamed.isString⟩
  refine ⟨{ kernel := k₄'
            count := 0
            next := fun d => if d = .el then .strcpy else .clear
            lines := script
            read := fun _ => 0
            printed := [] }, _, ⟨session_layout, hfound, hholds, fun d => (hnode d).2, fun _ => rfl, rfl, rfl,
    rfl, rfl, rfl⟩, hlive⟩

/-- The conversation of two processes, to its end. -/
theorem testPipes_printed_to_the_end : ∃ (s : TalkState) (start : Speaker → List UInt8),
    Reachable (session.Started start) session.Step s ∧ s.next .ella = .done ∧
      s.printed = transcript start ∧ s.next .el ≠ .done := by
  obtain ⟨s, start, hstarted, hlive⟩ := session_started
  obtain ⟨-, -, -, -, hend⟩ := testPipes_printed (.start hstarted)
  obtain ⟨s', hrun, hdone⟩ := hend sessionPid hlive
  have hreach := (Reachable.start hstarted).run hrun
  obtain ⟨-, -, hel, hprinted, -⟩ := testPipes_printed hreach
  exact ⟨s', start, hreach, hdone, hprinted hdone, hel⟩

end TestPipes

end BasicKernel
