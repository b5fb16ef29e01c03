import Checkedthreads.OwnerMap

/-!
The command protocol between the checkedthreads runtime and the detector.

The runtime talks to the detector by storing a `ct_cmd` object: the tag `MAGIC` in
`stored_magic`, the text `"Valgrind command"` in `const_magic`, and an opcode with its
arguments in `payload`. `ct_process_command` reads the object out of the client's memory,
updates the region state, and remembers the object in `g_ct_last_cmd`, so that the stores
that write it are not taken for races.

The detector's globals hold the page table as a value of any type `σ`, and
`ct_process_command` takes the one page-table operation it calls, `ct_clear_pagetab`, as an
argument: the same text then runs over the page table and over the owner map it stands for.
-/

namespace Checkedthreads.Command

open Pagetab OwnerMap

/-! ### The command object in the client's memory -/

-- `MAGIC`, `CONST_MAGIC` and `MAX_CMD`
def magic : ℕ := 0x12345678
def constMagic : String := "Valgrind command"
def maxCmd : ℕ := 128

-- `sizeof(ct_cmd)`: `stored_magic` at offset 0, `const_magic` at 4, `payload` at 20
def ctCmdSize : ℕ := 4 + 16 + maxCmd

-- `n` bytes of the client's memory from `p` on, little-endian as on the hosts the tool runs on
def le (mem : ℕ → UInt8) (p : ℕ) : ℕ → ℕ
  | 0 => 0
  | n + 1 => (mem p).toNat + 256 * le mem (p + 1) n

-- `p->stored_magic`
def storedMagic (mem : ℕ → UInt8) (p : ℕ) : ℕ := le mem p 4

-- the loop of `ct_str_is`: the characters `cs` stand in memory from `p` on
def strIsFrom (mem : ℕ → UInt8) : ℕ → List Char → Bool
  | _, [] => true
  | p, c :: cs => mem p == c.toUInt8 && strIsFrom mem (p + 1) cs

/-- `ct_str_is(variable, constant)`: the memory at `p` starts with the characters of
`constant`; what follows them is not looked at. -/
def ctStrIs (mem : ℕ → UInt8) (p : ℕ) (constant : String) : Bool := strIsFrom mem p constant.toList

-- a 32-bit word read as an `int32_t`
def toInt32 (x : ℕ) : ℤ := if x < 2 ^ 31 then x else x - 2 ^ 32

/-- An `Int` result as the machine keeps it, wrapped to 32 bits in two's complement. C leaves a
signed overflow undefined; compiled code wraps. -/
def wrapInt32 (v : ℤ) : ℤ := toInt32 (v % 2 ^ 32).toNat

lemma wrapInt32_of_mem {v : ℤ} (h1 : -2 ^ 31 ≤ v) (h2 : v < 2 ^ 31) : wrapInt32 v = v := by
  have h0 : ((v % 2 ^ 32).toNat : ℤ) = v % 2 ^ 32 :=
    Int.toNat_of_nonneg (Int.emod_nonneg _ (by decide))
  unfold wrapInt32 toInt32
  split_ifs <;> omega

-- `ct_cmd_int(cmd, oft)`: the `int32_t` at `payload[oft]`
def ctCmdInt (mem : ℕ → UInt8) (cmd oft : ℕ) : ℤ := toInt32 (le mem (cmd + 20 + oft) 4)

-- `ct_cmd_ptr(cmd, oft)`: the `Addr` at `payload[oft]`, 64 bits wide
def ctCmdPtr (mem : ℕ → UInt8) (cmd oft : ℕ) : ℕ := le mem (cmd + 20 + oft) 8

/-! ### The detector's globals and what it prints -/

/-- The detector's globals, with the page table of type `σ`: `g_ct_active`,
`g_ct_curr_thread` (the current worker plus one, `0` outside a region), `g_ct_pagetab_L3` and
everything under it, `g_ct_stackbot`, `g_ct_stackend`, `g_ct_last_cmd` (`0` for null), and
`clo_print_commands`, set from the command line before the first event. -/
structure Globals (σ : Type) where
  active : Bool
  currThread : ℤ
  pagetab : σ
  stackbot : ℕ
  stackend : ℕ
  lastCmd : ℕ
  printCommands : Bool

def Globals.init {σ : Type} (p : σ) (printCommands : Bool) : Globals σ :=
  ⟨false, 0, p, 0, 0, 0, printCommands⟩

-- the same globals over another view of the page table
def Globals.map {σ τ : Type} (f : σ → τ) (g : Globals σ) : Globals τ :=
  ⟨g.active, g.currThread, f g.pagetab, g.stackbot, g.stackend, g.lastCmd, g.printCommands⟩

inductive Echo
  | beginFor
  | endFor
  | iter (n : ℤ)
  | done (n : ℤ)
  | stackbot (bot stackend : ℕ)
  deriving DecidableEq, Repr

/-- What the detector prints: a race, with the current worker, the byte, the access and the
owning worker; a warning on an unknown opcode; a line under `--print-commands=yes`. -/
inductive Diag
  | race (thread : ℤ) (addr base size : ℕ) (owner : ℤ)
  | unknownCommand
  | echo (e : Echo)
  deriving DecidableEq, Repr

-- the format of each; a race and an unknown opcode then print at most 20 stack frames
def Diag.fmt : Diag → String
  | .race .. => "checkedthreads: error - thread %d accessed %p [%p,%d], owned by %d\n"
  | .unknownCommand => "checkedthreads: WARNING - unknown command!\n"
  | .echo .beginFor => "begin_for\n"
  | .echo .endFor => "end_for\n"
  | .echo (.iter _) => "iter %d\n"
  | .echo (.done _) => "done %d\n"
  | .echo (.stackbot ..) => "stackbot %p [stackend %p]\n"

def Diag.isRace : Diag → Bool
  | .race .. => true
  | _ => false

def Diag.IsRace (d : Diag) : Prop := d.isRace = true

instance : DecidablePred Diag.IsRace := fun d => inferInstanceAs (Decidable (d.isRace = true))

/-! ### `ct_process_command` -/

-- the opcodes of the if-chain of `ct_process_command`
inductive Opcode
  | beginFor | endFor | iter | done | thrd | stackbot
  deriving DecidableEq, Repr

def Opcode.text : Opcode → String
  | .beginFor => "begin_for"
  | .endFor => "end_for"
  | .iter => "iter"
  | .done => "done"
  | .thrd => "thrd"
  | .stackbot => "stackbot"

/-- The tests of the if-chain, in its order: the first opcode whose text `payload` starts
with, or none. -/
def decodeOpcode (mem : ℕ → UInt8) (cmd : ℕ) : Option Opcode :=
  [Opcode.beginFor, .endFor, .iter, .done, .thrd, .stackbot].find? fun op =>
    ctStrIs mem (cmd + 20) op.text

variable {σ τ : Type}

-- `if(clo_print_commands) VG_(printf)(...)`
def echo (g : Globals σ) (e : Echo) : List Diag := if g.printCommands then [.echo e] else []

/-- The branches of the if-chain of `ct_process_command`. `clear` is `ct_clear_pagetab` and
`stackEnd` what `ct_stack_end()` returns. -/
def dispatch (clear : σ → σ) (mem : ℕ → UInt8) (stackEnd : ℕ) (g : Globals σ) (cmd : ℕ) :
    Globals σ × List Diag :=
  match decodeOpcode mem cmd with
  | some .beginFor => (g, echo g .beginFor)
  | some .endFor => ({ g with pagetab := clear g.pagetab, currThread := 0 }, echo g .endFor)
  | some .iter => ({ g with active := true }, echo g (.iter (ctCmdInt mem cmd 4)))
  | some .done => ({ g with active := false }, echo g (.done (ctCmdInt mem cmd 4)))
  | some .thrd => ({ g with currThread := wrapInt32 (ctCmdInt mem cmd 4 + 1) }, [])
  | some .stackbot =>
    ({ g with stackbot := ctCmdPtr mem cmd 8, stackend := stackEnd },
      echo g (.stackbot (ctCmdPtr mem cmd 8) stackEnd))
  | none => (g, [.unknownCommand])

/-- `ct_process_command(cmd)`: nothing unless `const_magic` holds the text; otherwise the
if-chain, and then `g_ct_last_cmd = cmd` whatever the opcode. -/
def ctProcessCommand (clear : σ → σ) (mem : ℕ → UInt8) (stackEnd : ℕ) (g : Globals σ)
    (cmd : ℕ) : Globals σ × List Diag :=
  if !ctStrIs mem (cmd + 4) constMagic then (g, [])
  else
    let r := dispatch clear mem stackEnd g cmd
    ({ r.1 with lastCmd := cmd }, r.2)

-- a payload that starts with none of the six opcodes
def UnknownOpcode (mem : ℕ → UInt8) (cmd : ℕ) : Prop :=
  ∀ op ∈ ["begin_for", "end_for", "iter", "done", "thrd", "stackbot"],
    ctStrIs mem (cmd + 20) op = false

instance (mem : ℕ → UInt8) (cmd : ℕ) : Decidable (UnknownOpcode mem cmd) :=
  inferInstanceAs (Decidable (∀ op ∈ _, _))

lemma decodeOpcode_eq_none {mem : ℕ → UInt8} {cmd : ℕ} (hu : UnknownOpcode mem cmd) :
    decodeOpcode mem cmd = none :=
  List.find?_eq_none.2 fun op _ => by
    cases op <;> simpa [Opcode.text] using hu _ (by simp)

lemma mem_eq_of_ctStrIs {mem : ℕ → UInt8} {p : ℕ} {op : Opcode}
    (h : ctStrIs mem p op.text = true) : mem p = (op.text.toList.headD 'x').toUInt8 := by
  cases op <;> simp only [ctStrIs, Opcode.text, String.toList, strIsFrom, Bool.and_eq_true,
    beq_iff_eq] at h <;> exact h.1

-- the six texts begin with six different letters, so no test before an opcode's own succeeds
lemma decodeOpcode_of_ctStrIs {mem : ℕ → UInt8} {cmd : ℕ} {op : Opcode}
    (h : ctStrIs mem (cmd + 20) op.text = true) : decodeOpcode mem cmd = some op := by
  have hf : ∀ o, o ≠ op → ctStrIs mem (cmd + 20) o.text = false := fun o hne =>
    Bool.eq_false_iff.2 fun ho => hne <| by
      have := (mem_eq_of_ctStrIs ho).symm.trans (mem_eq_of_ctStrIs h)
      cases o <;> cases op <;> first | rfl | exact absurd this (by decide)
  cases op <;> simp [decodeOpcode, List.find?_cons, h, hf]

/-- The order of the if-chain never decides the branch: an opcode is taken exactly when its own
text is in the payload. -/
theorem decodeOpcode_eq_some_iff (mem : ℕ → UInt8) (cmd : ℕ) (op : Opcode) :
    decodeOpcode mem cmd = some op ↔ ctStrIs mem (cmd + 20) op.text = true := by
  refine ⟨fun h => ?_, decodeOpcode_of_ctStrIs⟩
  have := List.find?_some h
  exact this

/-! ### What a command does -/

lemma ctProcessCommand_of_tag {clear : σ → σ} {mem : ℕ → UInt8} {stackEnd : ℕ} {g : Globals σ}
    {cmd : ℕ} (hc : ctStrIs mem (cmd + 4) constMagic = true) :
    ctProcessCommand clear mem stackEnd g cmd =
      ({ (dispatch clear mem stackEnd g cmd).1 with lastCmd := cmd },
        (dispatch clear mem stackEnd g cmd).2) := by
  simp [ctProcessCommand, hc]

lemma ctProcessCommand_of_not_tag {clear : σ → σ} {mem : ℕ → UInt8} {stackEnd : ℕ}
    {g : Globals σ} {cmd : ℕ} (hc : ctStrIs mem (cmd + 4) constMagic = false) :
    ctProcessCommand clear mem stackEnd g cmd = (g, []) := by
  simp [ctProcessCommand, hc]

@[simp] lemma dispatch_printCommands (clear : σ → σ) (mem : ℕ → UInt8) (stackEnd : ℕ)
    (g : Globals σ) (cmd : ℕ) :
    (dispatch clear mem stackEnd g cmd).1.printCommands = g.printCommands := by
  unfold dispatch; split <;> rfl

@[simp] lemma ctProcessCommand_printCommands (clear : σ → σ) (mem : ℕ → UInt8) (stackEnd : ℕ)
    (g : Globals σ) (cmd : ℕ) :
    (ctProcessCommand clear mem stackEnd g cmd).1.printCommands = g.printCommands := by
  cases hc : ctStrIs mem (cmd + 4) constMagic
  · rw [ctProcessCommand_of_not_tag hc]
  · rw [ctProcessCommand_of_tag hc]; exact dispatch_printCommands ..

lemma ctProcessCommand_lastCmd (clear : σ → σ) (mem : ℕ → UInt8) (stackEnd : ℕ) (g : Globals σ)
    (cmd : ℕ) (hc : ctStrIs mem (cmd + 4) constMagic = true) :
    (ctProcessCommand clear mem stackEnd g cmd).1.lastCmd = cmd := by
  rw [ctProcessCommand_of_tag hc]

lemma not_race_echo (g : Globals σ) (e : Echo) : ∀ d ∈ echo g e, ¬ d.IsRace := by
  unfold echo; split <;> simp [Diag.IsRace, Diag.isRace]

lemma ctProcessCommand_not_race (clear : σ → σ) (mem : ℕ → UInt8) (stackEnd : ℕ) (g : Globals σ)
    (cmd : ℕ) : ∀ d ∈ (ctProcessCommand clear mem stackEnd g cmd).2, ¬ d.IsRace := by
  cases hc : ctStrIs mem (cmd + 4) constMagic
  · simp [ctProcessCommand_of_not_tag hc]
  · rw [ctProcessCommand_of_tag hc]
    unfold dispatch
    split <;> first | exact not_race_echo _ _ | simp [Diag.IsRace, Diag.isRace]

-- only `end_for` touches the page table, and it clears it
lemma ctProcessCommand_pagetab (clear : σ → σ) (mem : ℕ → UInt8) (stackEnd : ℕ) (g : Globals σ)
    (cmd : ℕ) : (ctProcessCommand clear mem stackEnd g cmd).1.pagetab =
      if ctStrIs mem (cmd + 4) constMagic ∧ decodeOpcode mem cmd = some .endFor then
        clear g.pagetab
      else g.pagetab := by
  cases hc : ctStrIs mem (cmd + 4) constMagic
  · simp [ctProcessCommand_of_not_tag hc]
  · rw [ctProcessCommand_of_tag hc]
    unfold dispatch
    split <;> simp_all

-- the page table can be viewed through any map that commutes with the clear
lemma ctProcessCommand_map (f : σ → τ) {clear : σ → σ} {clear' : τ → τ}
    (hc : ∀ x, f (clear x) = clear' (f x)) (mem : ℕ → UInt8) (stackEnd : ℕ) (g : Globals σ)
    (cmd : ℕ) : ctProcessCommand clear' mem stackEnd (g.map f) cmd =
      ((ctProcessCommand clear mem stackEnd g cmd).1.map f,
        (ctProcessCommand clear mem stackEnd g cmd).2) := by
  cases ht : ctStrIs mem (cmd + 4) constMagic
  · simp [ctProcessCommand_of_not_tag ht]
  · simp only [ctProcessCommand_of_tag ht, dispatch, echo, Globals.map]
    split <;> simp [hc]

/-- **An unknown opcode** draws one warning, and the only global it changes is
`g_ct_last_cmd`, which becomes the command. -/
theorem ctProcessCommand_unknown (clear : σ → σ) (mem : ℕ → UInt8) (stackEnd : ℕ)
    (g : Globals σ) (cmd : ℕ) (hc : ctStrIs mem (cmd + 4) constMagic = true)
    (hu : UnknownOpcode mem cmd) :
    ctProcessCommand clear mem stackEnd g cmd = ({ g with lastCmd := cmd }, [.unknownCommand]) := by
  rw [ctProcessCommand_of_tag hc, dispatch, decodeOpcode_eq_none hu]

/-! ### Command objects -/

/-- The bytes of a `ct_cmd` whose payload starts with `payload`: the tag, little-endian, and
the text. -/
def cmdBytes (payload : List UInt8) : List UInt8 :=
  [0x78, 0x56, 0x34, 0x12] ++ constMagic.toList.map Char.toUInt8 ++ payload

-- a client memory that holds `bytes` from `p` on, and zeros elsewhere
def memWith (p : ℕ) (bytes : List UInt8) (a : ℕ) : UInt8 :=
  if p ≤ a then bytes.getD (a - p) 0 else 0

-- the command object at `64` whose payload is `"bogus"`
def bogusMem : ℕ → UInt8 := memWith 64 (cmdBytes ("bogus".toList.map Char.toUInt8))

theorem ctProcessCommand_unknown_bogus :
    ctProcessCommand PT.clear bogusMem 0 (Globals.init PT.init false) 64 =
      ({ Globals.init PT.init false with lastCmd := 64 }, [.unknownCommand]) :=
  ctProcessCommand_unknown _ _ _ _ _ (by decide) (by decide)

/-- A tagged command with an unknown opcode, processed while `g_ct_last_cmd` is null, leaves
it pointing at the command. -/
theorem ctProcessCommand_bogus_moves_lastCmd :
    storedMagic bogusMem 64 = magic ∧ ctStrIs bogusMem 68 constMagic = true ∧
      UnknownOpcode bogusMem 64 ∧
      (ctProcessCommand PT.clear bogusMem 0 (Globals.init PT.init false) 64).1.lastCmd ≠
        (Globals.init PT.init false : Globals PT).lastCmd := by
  decide

end Checkedthreads.Command
