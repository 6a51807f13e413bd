import BasicKernel.Loader.ModuleLoader
import BasicKernel.Loader.ModulePacker

set_option autoImplicit false

/-! # From the packed image to running code

The module packer writes the image, the boot loader puts it in memory, and `initializeKernelBinary`
takes it apart again. Everything is in one memory: the text of the console, the image, the sections of
the kernel, among them the variables of the console itself, and the places of the modules.

`initializeKernelBinary_loads` goes from the packer to the kernel that runs: the modules are at
their places, the section `.bss` is cleared, and of the kernel's binary only the two variables of
the console have changed. `BootLayout` has what the linker script must arrange for that.
-/

namespace BasicKernel

open ByteMemory Fuel NaiveConsole

/-! ## The memory of the machine

The two variables of the console lie in the section `.data` of the kernel. The console has them as
fields, and this function puts them where the linker does. -/

/-- A byte of one of the variables of the console. -/
def LinkerSymbols.ConsoleByte (symbols : LinkerSymbols) (a : Nat) : Prop :=
  symbols.buffer ≤ a ∧ a < symbols.buffer + BUFFER ∨
    symbols.currentVideo ≤ a ∧ a < symbols.currentVideo + 8

/-- The bytes of memory, those of the two variables included. -/
def NaiveConsole.inMemory (symbols : LinkerSymbols) (c : NaiveConsole) : Memory :=
  put (put c.memory symbols.buffer c.buffer) symbols.currentVideo (encode 8 c.currentVideo)

section InMemory

variable {c : NaiveConsole} {symbols : LinkerSymbols}

theorem NaiveConsole.inMemory_of_not {a : Nat} (hbuffer : c.buffer.length = BUFFER)
    (ha : ¬ symbols.ConsoleByte a) : c.inMemory symbols a = c.memory a := by
  obtain ⟨hnot, hnot'⟩ := not_or.mp ha
  rw [inMemory, put_outside (by rw [encode_length]; omega), put_outside (by rw [hbuffer]; omega)]

/-- A memory that has the values of the variables where they are. -/
theorem NaiveConsole.inMemory_eq (hbuffer : fetch c.memory symbols.buffer c.buffer.length = c.buffer)
    (hcursor : fetch c.memory symbols.currentVideo 8 = encode 8 c.currentVideo) :
    c.inMemory symbols = c.memory := by
  rw [inMemory, ← hcursor]
  nth_rewrite 1 [← hbuffer]
  rw [put_fetch, put_fetch]

end InMemory

/-! ## What printing changes

Printing changes the text behind `currentVideo` and the two variables, and nothing else. How far
the cursor moves is bounded by the number of characters. -/

/-- The cursor is at a cell, and the buffer for numbers has its size. -/
structure NaiveConsole.Ok (c : NaiveConsole) : Prop where
  cell : ∃ n, c.currentVideo = video + 2 * n
  buffer : c.buffer.length = BUFFER

/-- At most `n` characters were printed. -/
structure Prints (n : Nat) (c c' : NaiveConsole) : Prop where
  ok : c'.Ok
  le : c.currentVideo ≤ c'.currentVideo
  cursor : c'.currentVideo ≤ c.currentVideo + 2 * n
  memory : ∀ a, c'.currentVideo ≤ a → c'.memory a = c.memory a

section Prints

variable {c c' c'' : NaiveConsole} {n k value base : Nat}

theorem Prints.refl (h : c.Ok) : Prints 0 c c := ⟨h, le_rfl, le_rfl, fun _ _ => rfl⟩

theorem Prints.trans (h : Prints n c c') (h' : Prints k c' c'') : Prints (n + k) c c'' := by
  have hle := h'.le
  refine ⟨h'.ok, h.le.trans hle, ?_, fun a ha => ?_⟩
  · have hcursor := h.cursor
    have hcursor' := h'.cursor
    omega
  · rw [h'.memory a ha, h.memory a (hle.trans ha)]

theorem Prints.mono (h : Prints n c c') (hnk : n ≤ k) : Prints k c c' :=
  ⟨h.ok, h.le, h.cursor.trans (by omega), h.memory⟩

theorem ncPrintChar_prints (h : c.Ok) (character : UInt8) : Prints 1 c (c.ncPrintChar character) := by
  obtain ⟨n, hn⟩ := h.cell
  refine ⟨⟨⟨n + 1, ?_⟩, h.buffer⟩, Nat.le_add_right _ 2, le_rfl, fun a ha => ?_⟩
  · show c.currentVideo + 2 = video + 2 * (n + 1)
    omega
  · have hlt : c.currentVideo + 2 ≤ a := ha
    exact Function.update_of_ne (by omega) _ _

theorem ncPrint_prints (h : c.Ok) (s : List UInt8) : Prints s.length c (c.ncPrint s) := by
  induction s generalizing c with
  | nil => exact .refl h
  | cons x s ih =>
      have hchar := ncPrintChar_prints h x
      exact (hchar.trans (ih hchar.ok)).mono (by rw [List.length_cons]; omega)

theorem ncPrintBase_prints (h : c.Ok) (hbase : 1 < base) (hle : base ≤ 36)
    (hlength : (numeral base value).length ≤ n) (hn : n < BUFFER) :
    ∃ c', Returns (fun fuel => c.ncPrintBase fuel value base) c' ∧ Prints n c c' := by
  obtain ⟨buffer, hbuffer, hreturns⟩ := ncPrintBase_returns hbase hle h.buffer (hlength.trans_lt hn)
  have hok : NaiveConsole.Ok { c with buffer } := ⟨h.cell, hbuffer⟩
  have hprints := (ncPrint_prints hok (numeral base value)).mono hlength
  exact ⟨_, hreturns, hprints.ok, hprints.le, hprints.cursor, hprints.memory⟩

theorem ncPrintHex_prints (h : c.Ok) (hvalue : value < 2 ^ 64) :
    ∃ c', Returns (fun fuel => c.ncPrintHex fuel value) c' ∧ Prints 16 c c' :=
  ncPrintBase_prints h (by decide) (by decide)
    ((length_numeral_le_iff (by decide) (by decide)).mpr hvalue) (by decide)

theorem ncPrintDec_prints (h : c.Ok) (hvalue : value < 2 ^ 32) :
    ∃ c', Returns (fun fuel => c.ncPrintDec fuel value) c' ∧ Prints 10 c c' :=
  ncPrintBase_prints h (by decide) (by decide)
    ((length_numeral_le_iff (by decide) (by decide)).mpr (hvalue.trans (by decide))) (by decide)

/-- A line ends after `d` more blanks. -/
theorem ncNewline_prints_of (d : Nat) : ∀ {c : NaiveConsole}, c.Ok → d < 80 →
    (∃ q, c.currentVideo + 2 * (d + 1) = video + 160 * q) →
      ∃ c', Returns (ncNewline · c) c' ∧ Prints (d + 1) c c' := by
  -- By induction on the blanks that are missing; the last one brings the pointer to the end of a
  -- row.
  induction d with
  | zero =>
      rintro c h - ⟨q, hq⟩
      have hchar := ncPrintChar_prints h 0x20
      refine ⟨_, (Returns.const _ _).succ rfl fun fuel => ?_, hchar⟩
      have hend : ((c.ncPrintChar 0x20).currentVideo - video) % (width * 2) = 0 := by
        show (c.currentVideo + 2 - video) % 160 = 0
        omega
      rw [ncNewline, if_neg (by rw [hend]; exact fun hne => hne rfl)]
  | succ d ih =>
      rintro c h hd ⟨q, hq⟩
      have hchar := ncPrintChar_prints h 0x20
      have hrest : (c.ncPrintChar 0x20).currentVideo + 2 * (d + 1) = video + 160 * q := by
        show c.currentVideo + 2 + 2 * (d + 1) = video + 160 * q
        omega
      obtain ⟨c', hreturns, hprints⟩ := ih hchar.ok (by omega) ⟨q, hrest⟩
      refine ⟨c', hreturns.succ rfl fun fuel => ?_, (hchar.trans hprints).mono (by omega)⟩
      -- A cell inside the row: the distance to the end is not yet a whole number of rows.
      obtain ⟨n, hn⟩ := h.cell
      have hinside : ((c.ncPrintChar 0x20).currentVideo - video) % (width * 2) ≠ 0 := by
        show (c.currentVideo + 2 - video) % 160 ≠ 0
        omega
      rw [ncNewline, if_pos hinside]

/-- A newline prints a blank at least, and at most a whole line. -/
theorem ncNewline_prints (h : c.Ok) : ∃ c', Returns (ncNewline · c) c' ∧ Prints 80 c c' := by
  obtain ⟨n, hn⟩ := h.cell
  have hline : c.currentVideo + 2 * (79 - n % 80 + 1) = video + 160 * (n / 80 + 1) := by omega
  obtain ⟨c', hreturns, hprints⟩ := ncNewline_prints_of (79 - n % 80) h (by omega) ⟨_, hline⟩
  exact ⟨c', hreturns, hprints.mono (by omega)⟩

end Prints

/-! ## Loading

One module after the other is copied to its place. What is still packed must not be overwritten
before it is read. -/

/-- The characters of the longest line on a module. -/
def LOAD_LINE : Nat := 24 + 16 + 6 + 16 + 2 + 10 + 7 + 7 + 80

/-- The targets of the modules, each with the bytes that belong there. -/
def places (targets : List Nat) (modules : List BinaryFile) : List (Nat × BinaryFile) :=
  targets.zip modules

/-- The bytes of a place. -/
def Covers (x : Nat × BinaryFile) (a : Nat) : Prop := x.1 ≤ a ∧ a < x.1 + x.2.length

/-- Two places with no byte in common. -/
def Apart (x y : Nat × BinaryFile) : Prop :=
  x.1 + x.2.length ≤ y.1 ∨ y.1 + y.2.length ≤ x.1

section Load

variable {c c' : NaiveConsole} {current target L : Nat} {file : BinaryFile}

/-- A module is copied, and nothing else changes from `L` on, where no text gets. -/
theorem loadModule_returns (h : c.Ok) (hsize : file.length < 2 ^ 32)
    (hfile : fetch c.memory current (encode 4 file.length ++ file).length = encode 4 file.length ++ file)
    (hL : c.currentVideo + 2 * LOAD_LINE ≤ L) (hcurrent : L ≤ current)
    (hend : current + 4 + file.length < 2 ^ 64) (htarget : target < 2 ^ 64)
    (hapart : target + file.length ≤ current + 4 ∨
      current + 4 + file.length ≤ target) :
    ∃ c', Returns (fun fuel => loadModule fuel c current target) (current + 4 + file.length, c') ∧
      c'.Ok ∧ c.currentVideo ≤ c'.currentVideo ∧
      c'.currentVideo ≤ c.currentVideo + 2 * LOAD_LINE ∧
      ∀ a, L ≤ a → c'.memory a = put c.memory target file a := by
  -- The first four bytes are the size, the rest is the file.
  obtain ⟨hsizeBytes, hbytes⟩ := fetch_append hfile
  rw [encode_length] at hsizeBytes hbytes
  have hword : loadWord c.memory current = file.length := by
    rw [loadWord, hsizeBytes, value_encode_of_lt hsize]
  have h₁ := ncPrint_prints h (chars "  Will copy module at 0x")
  obtain ⟨c₂, hr₂, h₂⟩ := ncPrintHex_prints h₁.ok (show current + 4 < 2 ^ 64 by omega)
  have h₃ := ncPrint_prints h₂.ok (chars " to 0x")
  obtain ⟨c₄, hr₄, h₄⟩ := ncPrintHex_prints h₃.ok htarget
  have h₅ := ncPrint_prints h₄.ok (chars " (")
  obtain ⟨c₆, hr₆, h₆⟩ := ncPrintDec_prints h₅.ok hsize
  have h₇ := ncPrint_prints h₆.ok (chars " bytes)")
  have hbefore := (((((h₁.trans h₂).trans h₃).trans h₄).trans h₅).trans h₆).trans h₇
  -- the copy is between two prints
  let c₇ := c₆.ncPrint (chars " bytes)")
  let c₈ : NaiveConsole := { c₇ with memory := memcpy c₇.memory target (current + 4) file.length }
  have hok₈ : c₈.Ok := ⟨h₇.ok.cell, h₇.ok.buffer⟩
  have h₉ := ncPrint_prints hok₈ (chars " [Done]")
  obtain ⟨c', hr', h'⟩ := ncNewline_prints h₉.ok
  have hafter := h₉.trans h'
  have hlength : LOAD_LINE = 24 + 16 + 6 + 16 + 2 + 10 + 7 + (7 + 80) := rfl
  have hcursor₇ : c₇.currentVideo ≤ c.currentVideo + 2 * (24 + 16 + 6 + 16 + 2 + 10 + 7) := hbefore.cursor
  have hcursor' : c'.currentVideo ≤ c₇.currentVideo + 2 * (7 + 80) := hafter.cursor
  have hle : c.currentVideo ≤ c'.currentVideo := hbefore.le.trans hafter.le
  refine ⟨c', ?_, h'.ok, hle, by omega, fun a ha => ?_⟩
  · have hrest := hr'.bind (g := fun _ c => .ok (current + 4 + file.length, c)) (Returns.const _ _)
    simp only [loadModule, readUint32, hword]
    refine hr₂.bind ?_
    refine hr₄.bind ?_
    refine hr₆.bind ?_
    exact hrest
  -- The text before the copy ends below `L`, so the image is read as it was packed.
  · have hsame : ∀ a, L ≤ a → c₇.memory a = c.memory a :=
      fun a ha => hbefore.memory a (hcursor₇.trans (by omega))
    have hsource : fetch c₇.memory (current + 4) file.length = file := by
      rw [fetch_congr fun x hlo _ => hsame x (by omega)]
      exact hbytes
    calc c'.memory a
        = memcpy c₇.memory target (current + 4) file.length a := hafter.memory a (by omega)
      _ = put c₇.memory target file a := by rw [memcpy_eq_put c₇.memory (by omega), hsource]
      _ = put c.memory target file a := put_congr (hsame a ha) target file

/-- The packed modules are at `current` in the memory, and each has a place of its own, away from the
others, from the packed modules and from the text of the console below `L`. -/
structure Loadable (L : Nat) (m : Memory) (current : Nat) (targets : List Nat)
    (modules : List BinaryFile) : Prop where
  count : modules.length ≤ targets.length
  size : ∀ file ∈ modules, file.length < 2 ^ 32
  address : ∀ target ∈ targets, target < 2 ^ 64
  packed : fetch m current (packModules modules).length = packModules modules
  above : L ≤ current
  bound : current + (packModules modules).length < 2 ^ 64
  places : ∀ x ∈ places targets modules, L ≤ x.1 ∧ Apart x (current, packModules modules)
  apart : (BasicKernel.places targets modules).Pairwise Apart

namespace Loadable

variable {m m' : Memory} {targets : List Nat} {modules : List BinaryFile}

theorem length_cons (file : BinaryFile) (modules : List BinaryFile) :
    (packModules (file :: modules)).length = 4 + file.length + (packModules modules).length := by
  simp only [packModules_cons, List.length_append, encode_length]
  omega

/-- The first module with its size, and the rest behind it. -/
theorem fetch_cons (h : Loadable L m current (target :: targets) (file :: modules)) :
    fetch m current (encode 4 file.length ++ file).length = encode 4 file.length ++ file ∧
      fetch m (current + 4 + file.length) (packModules modules).length = packModules modules := by
  have hpacked := h.packed
  rw [packModules_cons, ← List.append_assoc] at hpacked
  obtain ⟨hfile, hrest⟩ := fetch_append hpacked
  rw [List.length_append, encode_length, ← Nat.add_assoc] at hrest
  exact ⟨hfile, hrest⟩

theorem head_apart (h : Loadable L m current (target :: targets) (file :: modules)) :
    target + file.length ≤ current ∨
      current + (4 + file.length + (packModules modules).length) ≤ target := by
  rw [← length_cons]
  exact (h.places _ List.mem_cons_self).2

theorem bound_cons (h : Loadable L m current (target :: targets) (file :: modules)) :
    current + (4 + file.length + (packModules modules).length) < 2 ^ 64 :=
  length_cons file modules ▸ h.bound

/-- The copy of a module overwrites neither the packed modules behind it nor their places. -/
theorem tail (h : Loadable L m current (target :: targets) (file :: modules))
    (hm' : ∀ a, L ≤ a → m' a = put m target file a) :
    Loadable L m' (current + 4 + file.length) targets modules := by
  have habove := h.above
  have hbound := h.bound_cons
  have hhead := h.head_apart
  refine ⟨Nat.le_of_succ_le_succ h.count, fun f hf => h.size f (List.mem_cons_of_mem _ hf),
    fun t ht => h.address t (List.mem_cons_of_mem _ ht), ?_, by omega, by omega, fun x hx => ?_,
    (List.pairwise_cons.mp h.apart).2⟩
  · rw [fetch_congr fun x hlo hhi => ?_]
    · exact h.fetch_cons.2
    · rw [hm' x (by omega), put_outside (by omega)]
  · obtain ⟨hL, hx⟩ := h.places x (List.mem_cons_of_mem _ hx)
    have hx' : x.1 + x.2.length ≤ current ∨
        current + (4 + file.length + (packModules modules).length) ≤ x.1 := by
      rw [← length_cons]
      exact hx
    refine ⟨hL, ?_⟩
    show x.1 + x.2.length ≤ current + 4 + file.length ∨
      current + 4 + file.length + (packModules modules).length ≤ x.1
    omega

/-- The places of the later modules have no byte of the first one. -/
theorem not_covers (h : Loadable L m current (target :: targets) (file :: modules)) {a : Nat}
    (ha : Covers (target, file) a) {y : Nat × BinaryFile} (hy : y ∈ BasicKernel.places targets modules) :
    ¬ Covers y a := by
  have hapart : target + file.length ≤ y.1 ∨ y.1 + y.2.length ≤ target :=
    (List.pairwise_cons.mp h.apart).1 y hy
  have hin : target ≤ a ∧ a < target + file.length := ha
  rintro ⟨hlo, hhi⟩
  omega

end Loadable

/-- The modules that are left are put at the targets that are left. From `L` on nothing changes but
the bytes of their places. -/
theorem loadRest_returns {targets : List Nat} {modules : List BinaryFile} : ∀ {c : NaiveConsole}
    {done : List Nat} {current : Nat}, c.Ok → Loadable L c.memory current targets modules →
    c.currentVideo + 2 * LOAD_LINE * modules.length ≤ L →
      ∃ c', Returns (fun fuel => loadRest fuel (done ++ targets) modules.length done.length current c) c' ∧
        c'.Ok ∧ c.currentVideo ≤ c'.currentVideo ∧
        c'.currentVideo ≤ c.currentVideo + 2 * LOAD_LINE * modules.length ∧
        (∀ x ∈ places targets modules, fetch c'.memory x.1 x.2.length = x.2) ∧
        ∀ a, L ≤ a → (∀ x ∈ places targets modules, ¬ Covers x a) → c'.memory a = c.memory a := by
  -- By induction on the modules; one line of text and one place are used up for each.
  induction modules generalizing targets with
  | nil =>
      intro c done current hc _ _
      refine ⟨c, Returns.const _ c, hc, le_rfl, Nat.le_add_right _ _, ?_, fun _ _ _ => rfl⟩
      simp [places]
  | cons file modules ih =>
      -- What the first module leaves is again a loadable rest, with the pointer behind the module.
      intro c done current hc h hL
      obtain ⟨target, targets, rfl⟩ := List.exists_cons_of_length_pos
        (l := targets) (Nat.lt_of_lt_of_le (Nat.succ_pos _) h.count)
      have hhead := h.head_apart
      have hbound := h.bound_cons
      rw [List.length_cons, Nat.mul_succ] at hL
      obtain ⟨c₁, hr₁, hc₁, hle₁, hcursor₁, hmemory₁⟩ := loadModule_returns hc
        (h.size file List.mem_cons_self) h.fetch_cons.1 (by omega) h.above (by omega)
        (h.address target List.mem_cons_self) (by omega)
      obtain ⟨c', hr', hc', hle', hcursor', hloaded, hframe⟩ :=
        @ih targets c₁ (done ++ [target]) _ hc₁ (h.tail hmemory₁) (by omega)
      refine ⟨c', ?_, hc', hle₁.trans hle', ?_, ?_, ?_⟩
      -- The loop finds the target at the index of the modules done.
      · have hget : (done ++ target :: targets)[done.length]? = some target := by
          rw [List.getElem?_append_right le_rfl, Nat.sub_self]
          rfl
        rw [List.length_append, List.length_singleton, List.append_assoc] at hr'
        have hcall := hr₁.bind (g := fun fuel (r : Nat × NaiveConsole) => loadRest fuel
          (done ++ target :: targets) modules.length (done.length + 1) r.1 r.2) hr'
        simp only [List.length_cons, loadRest, hget]
        exact hcall
      · rw [List.length_cons, Nat.mul_succ]
        omega
      · intro x hx
        rcases List.mem_cons.mp hx with rfl | hx
        · -- the later modules leave the first one alone
          have hsame : SameOn target (target + file.length) c'.memory (put c.memory target file) := by
            intro a hlo hhi
            have hLa := (h.places _ List.mem_cons_self).1.trans hlo
            rw [hframe a hLa fun y hy => h.not_covers ⟨hlo, hhi⟩ hy, hmemory₁ a hLa]
          exact (fetch_congr hsame).trans (fetch_put c.memory target file)
        · exact hloaded x hx
      -- A byte in no place is in neither the first one nor a later one.
      · intro a ha hnot
        have hout : ¬ (target ≤ a ∧ a < target + file.length) := hnot _ List.mem_cons_self
        rw [hframe a ha fun y hy => hnot y (List.mem_cons_of_mem _ hy), hmemory₁ a ha,
          put_outside (by omega)]

/-- `loadModules` puts every module at its target. -/
theorem loadModules_returns {targets : List Nat} {modules : List BinaryFile} {payloadStart : Nat}
    (hc : c.Ok) (hcount : modules.length < 2 ^ 32)
    (hword : fetch c.memory payloadStart 4 = encode 4 modules.length)
    (h : Loadable L c.memory (payloadStart + 4) targets modules)
    (hL : c.currentVideo + 2 * LOAD_LINE * modules.length ≤ L) :
    ∃ c', Returns (fun fuel => loadModules fuel c payloadStart targets) c' ∧ c'.Ok ∧
      c.currentVideo ≤ c'.currentVideo ∧
      c'.currentVideo ≤ c.currentVideo + 2 * LOAD_LINE * modules.length ∧
      (∀ x ∈ places targets modules, fetch c'.memory x.1 x.2.length = x.2) ∧
      ∀ a, L ≤ a → (∀ x ∈ places targets modules, ¬ Covers x a) → c'.memory a = c.memory a := by
  obtain ⟨c', hreturns, hrest⟩ := @loadRest_returns L targets modules c [] _ hc h hL
  refine ⟨c', ?_, hrest⟩
  have hlength : loadWord c.memory payloadStart = modules.length := by
    rw [loadWord, hword, value_encode_of_lt hcount]
  simp only [loadModules, readUint32, hlength]
  exact hreturns

end Load

/-! ## Booting -/

/-- The characters that are printed before the modules are loaded, behind them, and behind `clearBSS`. -/
def FIRST_TEXT : Nat := 14 + 80 + 11 + 13 + 80 + (17 + 80)

def SECOND_TEXT : Nat := 6 + 80 + 80 + (30 + 80)

def THIRD_TEXT : Nat :=
  10 + 16 + 80 + (12 + 16 + 80) + (10 + 16 + 80) + (9 + 16 + 80) + (6 + 80) + 80

def BOOT_TEXT : Nat := FIRST_TEXT + LOAD_LINE * 2 + SECOND_TEXT + THIRD_TEXT

/-- What the linker script and the sizes of the files arrange when the image is loaded at `start`: the
binary of the kernel ends where the packer's part begins, the variables of the console are in its `.data`,
the payload may reach into `.bss`, and image and kernel end before the first module. -/
structure BootLayout (symbols : LinkerSymbols) (start : Nat) (kernel code data : BinaryFile) : Prop where
  binary : symbols.endOfKernelBinary = start + kernel.length
  buffer : start ≤ symbols.buffer ∧ symbols.buffer + BUFFER ≤ symbols.endOfKernelBinary
  currentVideo : start ≤ symbols.currentVideo ∧ symbols.currentVideo + 8 ≤ symbols.endOfKernelBinary
  bss : symbols.endOfKernelBinary ≤ symbols.bss
  sections : symbols.text ≤ symbols.bss ∧ symbols.rodata ≤ symbols.bss ∧ symbols.data ≤ symbols.bss
  kernel : symbols.bss ≤ symbols.endOfKernel ∧ symbols.endOfKernel ≤ sampleCodeModuleAddress
  image : symbols.endOfKernelBinary + (payload [code, data]).length ≤ sampleCodeModuleAddress
  code : sampleCodeModuleAddress + code.length ≤ sampleDataModuleAddress
  data : data.length < 2 ^ 32

section Boot

variable {c c' : NaiveConsole} {symbols : LinkerSymbols} {start value : Nat}
  {kernel code data image : BinaryFile} {vendor : List UInt8}

theorem printLine_prints (h : c.Ok) (text : String) :
    ∃ c', Returns (fun fuel => printLine fuel c text) c' ∧ Prints ((chars text).length + 80) c c' := by
  have htext := ncPrint_prints h (chars text)
  obtain ⟨c', hreturns, hprints⟩ := ncNewline_prints htext.ok
  exact ⟨c', hreturns, htext.trans hprints⟩

theorem printSection_prints (h : c.Ok) (name : String) (hvalue : value < 2 ^ 64) :
    ∃ c', Returns (fun fuel => printSection fuel c name value) c' ∧
      Prints ((chars name).length + 16 + 80) c c' := by
  have hname := ncPrint_prints h (chars name)
  obtain ⟨c₁, hr₁, h₁⟩ := ncPrintHex_prints hname.ok hvalue
  obtain ⟨c', hr', h'⟩ := ncNewline_prints h₁.ok
  exact ⟨c', hr₁.bind hr', (hname.trans h₁).trans h'⟩

/-- The payload of the image in memory can be loaded. -/
theorem BootLayout.loadable (h : BootLayout symbols start kernel code data) {m : Memory}
    (hpayload : fetch m symbols.endOfKernelBinary (payload [code, data]).length = payload [code, data]) :
    fetch m symbols.endOfKernelBinary 4 = encode 4 2 ∧ Loadable start m (symbols.endOfKernelBinary + 4)
      [sampleCodeModuleAddress, sampleDataModuleAddress] [code, data] := by
  have hbinary := h.binary
  have himage := h.image
  have hcode := h.code
  have hdata := h.data
  unfold sampleCodeModuleAddress at himage hcode
  unfold sampleDataModuleAddress at hcode
  -- The payload is the number of modules and then the modules themselves.
  have hlength : (payload [code, data]).length = 4 + (packModules [code, data]).length := by
    rw [payload, List.length_append, encode_length]
  obtain ⟨hcount, hpacked⟩ := fetch_append hpayload
  rw [encode_length] at hcount hpacked
  refine ⟨hcount, le_rfl, ?_, ?_, hpacked, by omega, by omega, ?_, ?_⟩
  · intro f hf
    simp only [List.mem_cons, List.not_mem_nil, or_false] at hf
    rcases hf with rfl | rfl
    · omega
    · exact hdata
  · intro t ht
    simp only [List.mem_cons, List.not_mem_nil, or_false] at ht
    rcases ht with rfl | rfl
    · decide
    · decide
  -- Both places are behind the image, hence clear of the text and of what is still to be read.
  · intro x hx
    simp only [places, List.zip_cons_cons, List.zip_nil_right, List.mem_cons, List.not_mem_nil,
      or_false] at hx
    rcases hx with rfl | rfl
    · refine ⟨?_, .inr ?_⟩
      · show start ≤ 0x400000
        omega
      · show symbols.endOfKernelBinary + 4 + (packModules [code, data]).length ≤ 0x400000
        omega
    · refine ⟨?_, .inr ?_⟩
      · show start ≤ 0x500000
        omega
      · show symbols.endOfKernelBinary + 4 + (packModules [code, data]).length ≤ 0x500000
        omega
  · refine List.pairwise_pair.mpr (.inl ?_)
    exact hcode

/-- What the boot code does to the memory outside the variables of the console. -/
theorem initializeKernelBinary_returns (hc : c.Ok)
    (hpayload : fetch c.memory symbols.endOfKernelBinary (payload [code, data]).length =
      payload [code, data])
    (hlayout : BootLayout symbols start kernel code data) (hvendor : vendor.length ≤ 13)
    (hscreen : c.currentVideo + 2 * BOOT_TEXT ≤ start) :
    ∃ c', Returns (fun fuel => initializeKernelBinary fuel symbols vendor c)
        (getStackBase symbols, c') ∧ c'.Ok ∧
      SameOn start symbols.endOfKernelBinary c'.memory c.memory ∧
      fetch c'.memory sampleCodeModuleAddress code.length = code ∧
      fetch c'.memory sampleDataModuleAddress data.length = data ∧
      ∀ a, symbols.bss ≤ a → a < symbols.endOfKernel → c'.memory a = 0 := by
  have hbinary := hlayout.binary
  have hbss := hlayout.bss
  have hsections := hlayout.sections
  have hend := hlayout.kernel
  have hcode := hlayout.code
  have htotal : BOOT_TEXT = FIRST_TEXT + LOAD_LINE * 2 + SECOND_TEXT + THIRD_TEXT := rfl
  -- the text in front of the modules
  obtain ⟨c₁, hr₁, h₁⟩ := printLine_prints hc "[x64BareBones]"
  have h₂ := ncPrint_prints h₁.ok (chars "CPU Vendor:")
  have h₃ := (ncPrint_prints h₂.ok vendor).mono hvendor
  obtain ⟨c₄, hr₄, h₄⟩ := ncNewline_prints h₃.ok
  obtain ⟨c₅, hr₅, h₅⟩ := printLine_prints h₄.ok "[Loading modules]"
  have hfirst : Prints FIRST_TEXT c c₅ := (((h₁.trans h₂).trans h₃).trans h₄).trans h₅
  have hcursor₅ := hfirst.cursor
  have hsame₅ : ∀ a, start ≤ a → c₅.memory a = c.memory a := fun a ha => hfirst.memory a (by omega)
  -- the modules
  have hpayload₅ : fetch c₅.memory symbols.endOfKernelBinary (payload [code, data]).length =
      payload [code, data] := by
    rw [fetch_congr fun a hlo _ => hsame₅ a (by omega)]
    exact hpayload
  obtain ⟨hword, hloadable⟩ := hlayout.loadable hpayload₅
  have hL : c₅.currentVideo + 2 * LOAD_LINE * [code, data].length ≤ start := by
    show c₅.currentVideo + 2 * LOAD_LINE * 2 ≤ start
    omega
  obtain ⟨c₆, hr₆, hok₆, hle₆, hcursor₆, hloaded₆, hframe₆⟩ :=
    loadModules_returns hfirst.ok (show [code, data].length < 2 ^ 32 by norm_num) hword hloadable hL
  have hcursor₆ : c₆.currentVideo ≤ c₅.currentVideo + 2 * LOAD_LINE * 2 := hcursor₆
  have hcode₆ : fetch c₆.memory sampleCodeModuleAddress code.length = code :=
    hloaded₆ (sampleCodeModuleAddress, code) (by simp [places])
  have hdata₆ : fetch c₆.memory sampleDataModuleAddress data.length = data :=
    hloaded₆ (sampleDataModuleAddress, data) (by simp [places])
  -- the text up to `clearBSS`
  obtain ⟨c₇, hr₇, h₇⟩ := printLine_prints hok₆ "[Done]"
  obtain ⟨c₈, hr₈, h₈⟩ := ncNewline_prints h₇.ok
  obtain ⟨c₉, hr₉, h₉⟩ := printLine_prints h₈.ok "[Initializing kernel's binary]"
  have hsecond : Prints SECOND_TEXT c₆ c₉ := (h₇.trans h₈).trans h₉
  have hcursor₉ := hsecond.cursor
  -- the text behind it
  let c₁₀ : NaiveConsole :=
    { c₉ with memory := clearBSS c₉.memory symbols.bss (symbols.endOfKernel - symbols.bss) }
  have hok₁₀ : c₁₀.Ok := ⟨hsecond.ok.cell, hsecond.ok.buffer⟩
  have hsmall : symbols.bss < 2 ^ 64 := by
    unfold sampleCodeModuleAddress at hend
    omega
  obtain ⟨c₁₁, hr₁₁, h₁₁⟩ := printSection_prints hok₁₀ "  text: 0x" (hsections.1.trans_lt hsmall)
  obtain ⟨c₁₂, hr₁₂, h₁₂⟩ := printSection_prints h₁₁.ok "  rodata: 0x" (hsections.2.1.trans_lt hsmall)
  obtain ⟨c₁₃, hr₁₃, h₁₃⟩ := printSection_prints h₁₂.ok "  data: 0x" (hsections.2.2.trans_lt hsmall)
  obtain ⟨c₁₄, hr₁₄, h₁₄⟩ := printSection_prints h₁₃.ok "  bss: 0x" hsmall
  obtain ⟨c₁₅, hr₁₅, h₁₅⟩ := printLine_prints h₁₄.ok "[Done]"
  obtain ⟨c', hr', h'⟩ := ncNewline_prints h₁₅.ok
  have hthird : Prints THIRD_TEXT c₁₀ c' :=
    ((((h₁₁.trans h₁₂).trans h₁₃).trans h₁₄).trans h₁₅).trans h'
  have hcursor' : c'.currentVideo ≤ c₉.currentVideo + 2 * THIRD_TEXT := hthird.cursor
  have hfinal : ∀ a, start ≤ a → c'.memory a =
      if symbols.bss ≤ a ∧ a < symbols.endOfKernel then 0 else c₆.memory a := by
    intro a ha
    calc c'.memory a
        = memset c₉.memory symbols.bss 0 (symbols.endOfKernel - symbols.bss) a :=
          hthird.memory a (by omega)
      _ = if symbols.bss ≤ a ∧ a < symbols.endOfKernel then 0 else c₉.memory a := by
          rw [memset_apply, Nat.add_sub_cancel' hend.1]
          rfl
      _ = if symbols.bss ≤ a ∧ a < symbols.endOfKernel then 0 else c₆.memory a := by
          rw [hsecond.memory a (by omega)]
  refine ⟨c', ?_, hthird.ok, fun a hlo hhi => ?_, ?_, ?_, fun a hlo hhi => ?_⟩
  · refine hr₁.bind ?_
    refine hr₄.bind ?_
    refine hr₅.bind ?_
    refine hr₆.bind ?_
    refine hr₇.bind ?_
    refine hr₈.bind ?_
    refine hr₉.bind ?_
    refine hr₁₁.bind ?_
    refine hr₁₂.bind ?_
    refine hr₁₃.bind ?_
    refine hr₁₄.bind ?_
    refine hr₁₅.bind ?_
    exact hr'.bind (g := fun _ c => .ok (getStackBase symbols, c)) (Returns.const _ _)
  · have hnot : ∀ x ∈ places [sampleCodeModuleAddress, sampleDataModuleAddress] [code, data],
        ¬ Covers x a := by
      simp only [places, List.zip_cons_cons, List.zip_nil_right, List.mem_cons, List.not_mem_nil,
        or_false]
      rintro x (rfl | rfl) ⟨hin, -⟩
      · exact absurd (hin : sampleCodeModuleAddress ≤ a) (by omega)
      · exact absurd (hin : sampleDataModuleAddress ≤ a) (by omega)
    rw [hfinal a hlo, if_neg (by omega), hframe₆ a hlo hnot, hsame₅ a hlo]
  · rw [fetch_congr fun a hlo hhi => ?_]
    · exact hcode₆
    · rw [hfinal a (by omega), if_neg (by omega)]
  · rw [fetch_congr fun a hlo hhi => ?_]
    · exact hdata₆
    · rw [hfinal a (by omega), if_neg (by omega)]
  · rw [hfinal a (by omega), if_pos ⟨hlo, hhi⟩]

/-- The variables of the console are in the binary of the kernel. -/
theorem BootLayout.not_consoleByte (h : BootLayout symbols start kernel code data) {a : Nat}
    (ha : symbols.endOfKernelBinary ≤ a) : ¬ symbols.ConsoleByte a := by
  have hbuffer := h.buffer.2
  have hcursor := h.currentVideo.2
  rintro (⟨-, hlt⟩ | ⟨-, hlt⟩)
  · omega
  · omega

/-- The kernel that comes up runs what was packed. The image that the packer builds from the kernel and
the two modules is in memory from `start` on; when `initializeKernelBinary` returns, the modules are at
their addresses, of the kernel's binary nothing has changed but the variables of the console, and `.bss`
is zero although the payload may have been loaded over it. -/
theorem initializeKernelBinary_loads {fuel : Nat} (hc : c.Ok)
    (himage : buildImage fuel [kernel, code, data] = .ok image)
    (hmemory : fetch (c.inMemory symbols) start image.length = image)
    (hlayout : BootLayout symbols start kernel code data) (hvendor : vendor.length ≤ 13)
    (hscreen : c.currentVideo + 2 * BOOT_TEXT ≤ start) :
    ∃ c', Returns (fun fuel => initializeKernelBinary fuel symbols vendor c)
        (getStackBase symbols, c') ∧
      (∀ i, i < kernel.length → ¬ symbols.ConsoleByte (start + i) →
        some (c'.inMemory symbols (start + i)) = kernel[i]?) ∧
      fetch (c'.inMemory symbols) sampleCodeModuleAddress code.length = code ∧
      fetch (c'.inMemory symbols) sampleDataModuleAddress data.length = data ∧
      ∀ a, symbols.bss ≤ a → a < symbols.endOfKernel → c'.inMemory symbols a = 0 := by
  obtain rfl : image = kernel ++ payload [code, data] := (buildImage_returns kernel [code, data]).eq himage
  -- The image splits into the kernel and the payload, at `endOfKernelBinary`.
  obtain ⟨hkernel, hpayload⟩ := fetch_append hmemory
  rw [← hlayout.binary] at hpayload
  have hbss := hlayout.bss
  -- The variables of the console are inside the kernel's binary: from its end on both memories
  -- agree.
  have hsame : ∀ {c : NaiveConsole}, c.Ok → ∀ a, symbols.endOfKernelBinary ≤ a →
      c.inMemory symbols a = c.memory a := fun hc a ha =>
    NaiveConsole.inMemory_of_not hc.buffer (hlayout.not_consoleByte ha)
  have hfetch : ∀ {c : NaiveConsole}, c.Ok → ∀ a n, symbols.endOfKernelBinary ≤ a →
      fetch (c.inMemory symbols) a n = fetch c.memory a n := fun hc a n ha =>
    fetch_congr fun x hlo _ => hsame hc x (ha.trans hlo)
  have htarget : symbols.endOfKernelBinary ≤ sampleCodeModuleAddress := by
    have himage := hlayout.image
    omega
  rw [hfetch hc _ _ le_rfl] at hpayload
  obtain ⟨c', hreturns, hc', hbinary, hcode, hdata, hzero⟩ :=
    initializeKernelBinary_returns hc hpayload hlayout hvendor hscreen
  refine ⟨c', hreturns, fun i hi hnot => ?_, ?_, ?_, fun a hlo hhi => ?_⟩
  -- Below the end, only the bytes that are no variable of the console are the same.
  · have hend := hlayout.binary
    rw [← hkernel, fetch_get _ _ hi, NaiveConsole.inMemory_of_not hc'.buffer hnot,
      NaiveConsole.inMemory_of_not hc.buffer hnot, hbinary _ (Nat.le_add_right _ _) (by omega)]
  · rw [hfetch hc' _ _ htarget]
    exact hcode
  · rw [hfetch hc' _ _ (htarget.trans (by decide))]
    exact hdata
  -- `.bss` begins behind the binary as well, and was cleared last.
  · rw [hsame hc' a (hbss.trans hlo)]
    exact hzero a hlo hhi

end Boot

/-- A kernel of one page of code, with the variables of the console as `.data`, loaded where the linker
script puts it. The payload reaches into its `.bss`. -/
def smallSymbols : LinkerSymbols :=
  { text := 0x100000, rodata := 0x101000, data := 0x101000, bss := 0x102000
    endOfKernelBinary := 0x101048, endOfKernel := 0x103000, buffer := 0x101000, currentVideo := 0x101040 }

def smallText : BinaryFile := List.replicate 0x1000 0x90

def smallKernel : BinaryFile :=
  smallText ++ ((NaiveConsole.initial fun _ => 0).buffer ++ encode 8 video)

def smallCode : BinaryFile := List.replicate 0x1000 0x55

def smallData : BinaryFile := [0x41, 0x42]

def smallImage : BinaryFile := smallKernel ++ payload [smallCode, smallData]

def bootMemory : Memory := put (fun _ => 0xFF) 0x100000 smallImage

def bootConsole : NaiveConsole := .initial bootMemory

theorem fetch_bootMemory : fetch bootMemory 0x100000 smallImage.length = smallImage := fetch_put _ _ _

theorem bootConsole_memory : bootConsole.memory = bootMemory := by
  rw [bootConsole, NaiveConsole.initial]

/-- The variables of the console have their initial values in the image. -/
theorem bootConsole_inMemory : bootConsole.inMemory smallSymbols = bootConsole.memory := by
  obtain ⟨hkernel, -⟩ := fetch_append fetch_bootMemory
  obtain ⟨-, hvariables⟩ := fetch_append hkernel
  obtain ⟨hbuffer, hcursor⟩ := fetch_append hvariables
  have htext : 0x100000 + smallText.length = 0x101000 := by rw [smallText, List.length_replicate]
  rw [htext, ← bootConsole_memory] at hbuffer hcursor
  have hbuffer : fetch bootConsole.memory 0x101000 bootConsole.buffer.length = bootConsole.buffer := by
    rw [show bootConsole.buffer = (NaiveConsole.initial fun _ => 0).buffer by
      rw [bootConsole, NaiveConsole.initial, NaiveConsole.initial]]
    exact hbuffer
  have hlength : (NaiveConsole.initial fun _ => 0).buffer.length = 0x40 := by
    rw [NaiveConsole.initial]
    rfl
  rw [hlength, encode_length] at hcursor
  have hcursor : fetch bootConsole.memory 0x101040 8 = encode 8 bootConsole.currentVideo := by
    rw [show bootConsole.currentVideo = video by rw [bootConsole, NaiveConsole.initial]]
    exact hcursor
  have hbufferAddress : smallSymbols.buffer = 0x101000 := rfl
  have hcursorAddress : smallSymbols.currentVideo = 0x101040 := rfl
  exact NaiveConsole.inMemory_eq (hbufferAddress.symm ▸ hbuffer) (hcursorAddress.symm ▸ hcursor)

theorem initializeKernelBinary_loads_small :
    ∃ c', Returns (fun fuel => initializeKernelBinary fuel smallSymbols (chars "GenuineIntel") bootConsole)
        (getStackBase smallSymbols, c') ∧
      (∀ i, i < smallKernel.length → ¬ smallSymbols.ConsoleByte (0x100000 + i) →
        some (c'.inMemory smallSymbols (0x100000 + i)) = smallKernel[i]?) ∧
      fetch (c'.inMemory smallSymbols) sampleCodeModuleAddress smallCode.length = smallCode ∧
      fetch (c'.inMemory smallSymbols) sampleDataModuleAddress smallData.length = smallData ∧
      ∀ a, smallSymbols.bss ≤ a → a < smallSymbols.endOfKernel →
        c'.inMemory smallSymbols a = 0 := by
  have hkernel : smallKernel.length = 0x1048 := by
    rw [smallKernel, smallText, List.length_append, List.length_replicate, List.length_append,
      encode_length]
    rfl
  have hcode : smallCode.length = 0x1000 := List.length_replicate
  have hpayload : (payload [smallCode, smallData]).length = 0x100E := by
    rw [payload, packModules_cons, packModules_cons, packModules_nil]
    simp [hcode, smallData]
  obtain ⟨fuel, hbuild⟩ := (buildImage_returns smallKernel [smallCode, smallData]).exists_fuel
  refine initializeKernelBinary_loads ⟨⟨0, rfl⟩, rfl⟩ hbuild ?_
    ⟨by rw [hkernel]; rfl, by decide, by decide, by decide, by decide, by decide, ?_, ?_, by decide⟩
    (by decide) (by decide)
  -- The memory was built as the image on a console that has printed nothing.
  · have himage := fetch_bootMemory
    rw [smallImage, ← bootConsole_memory, ← bootConsole_inMemory] at himage
    exact himage
  · rw [hpayload]
    decide
  · rw [hcode]
    decide

end BasicKernel
